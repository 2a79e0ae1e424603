/-
**Streaming a message through the SHA driver.**

Three results about any sequence of updates after `sha256_init`:

* `sha256Update_streams`: the engine has the whole blocks of the message and the buffer the rest,
  however the message was split.
* `sha256Final_pads_iff`: `sha256_final` appends the padding of SHA-256 unless the length is 56 or
  57 modulo 64, where it reaches the 0x02 in `padding`.
* `blocksPushed_iff`: `sha256_init` has announced the number of blocks pushed exactly when the last
  block of the message has room for the length.
-/

import K210Guard.Sha.DriverSpec

namespace K210Guard

open Sha256 (Word)

/-- The driver after `sha256_init` for a length and updates with some pieces. -/
def ShaDriver.streamed (inputSize : Nat) (pieces : List (List Byte)) : ShaDriver :=
  pieces.foldl ShaDriver.sha256Update (ShaDriver.sha256Init inputSize)

/-- The number of whole blocks written to the engine. -/
def ShaRegisters.blocksPushed (registers : ShaRegisters) : Nat := registers.shaDataIn1.length / 16

namespace ShaDriver

theorem fed_streamed (inputSize : Nat) (pieces : List (List Byte)) :
    (streamed inputSize pieces).Fed ((inputSize + 64) % 2 ^ 32 / 64) pieces.flatten :=
  (fed_init inputSize).updates pieces

/-! ### The invariant -/

/-- Four bytes a word. -/
theorem bytes_length (registers : ShaRegisters) :
    registers.bytes.length = 4 * registers.shaDataIn1.length := by
  obtain ⟨_, words⟩ := registers
  show (words.flatMap fun word => leBytes 4 word.toNat).length = 4 * words.length
  induction words with
  | nil => rfl
  | cons word rest ih =>
      rw [List.flatMap_cons, List.length_append, ih, leBytes_length, List.length_cons]
      omega

/-- The words can be read back off their bytes. -/
theorem bufferWords_of_bytes (words : List Word) :
    bufferWords words.length (words.flatMap fun word => leBytes 4 word.toNat) = words := by
  induction words with
  | nil => rfl
  | cons word rest ih =>
      have length4 : (leBytes 4 word.toNat).length = 4 := leBytes_length _ _
      rw [List.flatMap_cons, List.length_cons, bufferWords, List.take_left' length4,
        List.drop_left' length4, ih, leNat_leBytes]
      congr 1
      have residue : word.toNat % 256 ^ 4 = word.toNat := Nat.mod_eq_of_lt word.isLt
      rw [residue]
      exact (BitVec.ofNat_toNat 32 word).trans (BitVec.setWidth_eq word)

/-- **A driver is determined by what it has been fed.** -/
theorem Fed.unique {sc other : ShaDriver} {blocks : Nat} {message : List Byte}
    (fed : sc.Fed blocks message) (fed' : other.Fed blocks message) : sc = other := by
  have lengths : sc.registers.bytes.length = other.registers.bytes.length := by
    rw [fed.pushed, fed'.pushed]
  obtain ⟨bytes, buffer⟩ := List.append_inj (fed.bytes.trans fed'.bytes.symm) lengths
  have words : sc.registers.shaDataIn1 = other.registers.shaDataIn1 := by
    rw [bytes_length, bytes_length] at lengths
    have count : sc.registers.shaDataIn1.length = other.registers.shaDataIn1.length := by omega
    rw [← bufferWords_of_bytes sc.registers.shaDataIn1,
      ← bufferWords_of_bytes other.registers.shaDataIn1, count]
    exact congrArg (bufferWords _) bytes
  have announced := fed.announced.trans fed'.announced.symm
  have total := fed.total.trans fed'.total.symm
  obtain ⟨⟨num, pushed⟩, ⟨length, kept, room⟩⟩ := sc
  obtain ⟨⟨num', pushed'⟩, ⟨length', kept', room'⟩⟩ := other
  subst words buffer announced total
  rfl

/-- **The streaming invariant**: after any updates the engine has the whole blocks of the message in
order, the buffer the rest, the context its length in bits; another split of the message leaves the
same driver. -/
theorem sha256Update_streams (inputSize : Nat) (pieces : List (List Byte)) :
    (streamed inputSize pieces).registers.bytes =
        pieces.flatten.take (64 * (pieces.flatten.length / 64)) ∧
      (streamed inputSize pieces).context.buffer.length = pieces.flatten.length % 64 ∧
      (streamed inputSize pieces).context.buffer =
        pieces.flatten.drop (64 * (pieces.flatten.length / 64)) ∧
      (streamed inputSize pieces).context.totalLength =
        BitVec.ofNat 64 (8 * pieces.flatten.length) ∧
      ∀ other : List (List Byte), other.flatten = pieces.flatten →
        streamed inputSize other = streamed inputSize pieces := by
  have fed := fed_streamed inputSize pieces
  have split := fed.bytes
  have pushed := fed.pushed
  refine ⟨?_, fed.buffered, ?_, ?_, fun other same => ?_⟩
  · rw [← pushed, ← split, List.take_left]
  · rw [← pushed, ← split, List.drop_left]
  · rw [fed.total, Nat.mul_comm]
  · have fed' := fed_streamed inputSize other
    rw [same] at fed'
    exact fed'.unique fed

/-! ### The padding -/

/-- **When the padding is right**: for all lengths but 56 and 57 modulo 64. -/
theorem sha256Final_pads_iff (inputSize : Nat) (pieces : List (List Byte)) :
    ((streamed inputSize pieces).ended.registers.bytes = Sha256.pad pieces.flatten ∧
        (streamed inputSize pieces).ended.context.buffer = []) ↔
      pieces.flatten.length % 64 ≠ 56 ∧ pieces.flatten.length % 64 ≠ 57 := by
  obtain ⟨empty, bytes⟩ := (fed_streamed inputSize pieces).ended_empty
  rw [bytes, append_ending_iff]
  exact and_iff_left empty

/-- **A message of 56 bytes is padded wrongly.** -/
theorem fifty_six_padded :
    ¬ ((streamed 56 [List.replicate 56 0]).ended.registers.bytes =
        Sha256.pad [List.replicate 56 0].flatten ∧
      (streamed 56 [List.replicate 56 0]).ended.context.buffer = []) := by
  rintro ⟨right, _⟩
  rw [(fed_streamed 56 [List.replicate 56 0]).ended_empty.2, append_ending_iff] at right
  exact right.1 (by decide)

/-! ### The number of blocks -/

/-- After the ending, the engine has as many blocks as the padded message. -/
theorem Fed.ended_blocks {sc : ShaDriver} {blocks : Nat} {message : List Byte}
    (fed : sc.Fed blocks message) :
    sc.ended.registers.blocksPushed = (message.length + 72) / 64 := by
  have pushed := fed.ended.pushed
  rw [bytes_length, append_ending_length, Nat.mul_div_cancel_left _ (by decide)] at pushed
  unfold ShaRegisters.blocksPushed
  omega

/-- **When the announced number of blocks is right**: when the last block of the message has room
for a bit and the length. -/
theorem blocksPushed_iff (pieces : List (List Byte))
    (small : pieces.flatten.length < 2 ^ 32 - 72) :
    (streamed pieces.flatten.length pieces).ended.registers.blocksPushed =
        (streamed pieces.flatten.length pieces).ended.registers.shaDataNum ↔
      pieces.flatten.length % 64 ≤ 55 := by
  have fed := fed_streamed pieces.flatten.length pieces
  rw [fed.ended_blocks, fed.ended.announced, Nat.mod_eq_of_lt (by omega)]
  omega

/-- Three bytes in two pieces. -/
theorem blocksPushed_iff_abc :
    (streamed 3 [[0x61#8], [0x62#8, 0x63#8]]).ended.registers.blocksPushed =
        (streamed 3 [[0x61#8], [0x62#8, 0x63#8]]).ended.registers.shaDataNum ↔ 3 % 64 ≤ 55 :=
  blocksPushed_iff [[0x61#8], [0x62#8, 0x63#8]] (by decide)

/-- **One block too few is announced for 56 bytes.** -/
theorem fifty_six_announced :
    (streamed 56 [List.replicate 56 0]).ended.registers.blocksPushed ≠
      (streamed 56 [List.replicate 56 0]).ended.registers.shaDataNum := by
  have fed := fed_streamed 56 [List.replicate 56 0]
  rw [fed.ended_blocks, fed.ended.announced]
  decide

end ShaDriver

end K210Guard
