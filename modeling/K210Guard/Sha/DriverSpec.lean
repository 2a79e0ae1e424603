/-
**The SHA driver computes SHA-256** of messages whose last block has room for the length.

* `ShaDriver.Fed`: the engine and the buffer together have the message so far; `Fed.update` and
  `Fed.updates`: updates append to it.
* `Fed.ended`: `sha256_final` appends a piece of `padding` and the length, which fill whole blocks;
  `padding_take_iff`: the piece is the padding of SHA-256 unless it reaches the last two bytes.
* `shaDriver_digest`: for messages of at most 55 bytes modulo 64 the announced number of blocks is
  that of the padded message, and the result is its hash.
-/

import K210Guard.Sha.Driver

namespace K210Guard

open Sha256 (Word beBytes)

/-! ### Byte order -/

theorem byteSwap_bit (x : Word) (index : Nat) (bound : index < 32) :
    (byteSwap x).getLsbD index = x.getLsbD (8 * (3 - index / 8) + index % 8) := by
  unfold byteSwap rotr rotl
  interval_cases index <;> simp

/-- Swapping turns the bytes around. -/
theorem leBytes_byteSwap (x : Word) : leBytes 4 (byteSwap x).toNat = beBytes 4 x.toNat := by
  refine List.ext_getElem (by simp) fun index left right => ?_
  have bound : index < 4 := by simpa using left
  simp only [beBytes]
  rw [List.getElem_reverse, getElem_leBytes, getElem_leBytes, ofNat_byte, ofNat_byte]
  ext bit small
  rw [BitVec.getElem_extractLsb', BitVec.getElem_extractLsb', byteSwap_bit _ _ (by omega),
    leBytes_length]
  congr 1
  omega

/-- The swap of 64 bits swaps both halves and exchanges them. -/
theorem byteSwap64_toNat (x : BitVec 64) :
    (byteSwap64 x).toNat = (byteSwap (x.setWidth 32)).toNat * 2 ^ 32 +
      (byteSwap ((x >>> 32).setWidth 32)).toNat := by
  have high := (byteSwap (x.setWidth 32)).isLt
  have low := (byteSwap ((x >>> 32).setWidth 32)).isLt
  have highWide : (byteSwap (x.setWidth 32)).toNat % 2 ^ 64 =
      (byteSwap (x.setWidth 32)).toNat := Nat.mod_eq_of_lt (by omega)
  have lowWide : (byteSwap ((x >>> 32).setWidth 32)).toNat % 2 ^ 64 =
      (byteSwap ((x >>> 32).setWidth 32)).toNat := Nat.mod_eq_of_lt (by omega)
  simp only [byteSwap64]
  rw [BitVec.toNat_or, BitVec.toNat_shiftLeft, BitVec.toNat_setWidth, BitVec.toNat_setWidth,
    highWide, lowWide, Nat.mod_eq_of_lt (by rw [Nat.shiftLeft_eq]; omega),
    ← Nat.shiftLeft_add_eq_or_of_lt low, Nat.shiftLeft_eq]

theorem leBytes_byteSwap64 (x : BitVec 64) :
    leBytes 8 (byteSwap64 x).toNat = beBytes 8 x.toNat := by
  have low := (byteSwap ((x >>> 32).setWidth 32)).isLt
  have high : (byteSwap64 x).toNat / 256 ^ 4 = (byteSwap (x.setWidth 32)).toNat := by
    rw [byteSwap64_toNat]
    omega
  have rest : (byteSwap64 x).toNat % 256 ^ 4 = (byteSwap ((x >>> 32).setWidth 32)).toNat := by
    rw [byteSwap64_toNat]
    omega
  have lowHalf : leBytes 4 (x.setWidth 32).toNat = leBytes 4 x.toNat := by
    rw [BitVec.toNat_setWidth]
    exact leBytes_mod 4 x.toNat
  have highHalf : leBytes 4 ((x >>> 32).setWidth 32).toNat = leBytes 4 (x.toNat / 256 ^ 4) := by
    rw [BitVec.toNat_setWidth, BitVec.toNat_ushiftRight, Nat.shiftRight_eq_div_pow]
    exact leBytes_mod 4 _
  rw [show 8 = 4 + 4 from rfl, leBytes_add, high, ← leBytes_mod 4, rest, leBytes_byteSwap,
    leBytes_byteSwap, beBytes, beBytes, beBytes, lowHalf, highHalf, ← List.reverse_append,
    ← leBytes_add]

/-- Words in memory order are their bytes. -/
theorem leBytes_word {bytes : List Byte} (length4 : bytes.length = 4) :
    leBytes 4 (BitVec.ofNat 32 (leNat bytes)).toNat = bytes := by
  have small : leNat bytes < 2 ^ 32 := by
    have bound := leNat_lt bytes
    rw [length4] at bound
    omega
  rw [BitVec.toNat_ofNat, Nat.mod_eq_of_lt small, ← length4, leBytes_leNat]

theorem bufferWords_bytes {count : Nat} {bytes : List Byte} (whole : bytes.length = 4 * count) :
    (bufferWords count bytes).flatMap (fun word => leBytes 4 word.toNat) = bytes := by
  induction count generalizing bytes with
  | zero =>
      rw [List.length_eq_zero_iff.mp whole]
      rfl
  | succ count ih =>
      rw [bufferWords, List.flatMap_cons, ih (by rw [List.length_drop]; omega),
        leBytes_word (by rw [List.length_take]; omega), List.take_append_drop]

/-- The result registers are read back as the hash value. -/
theorem resultDigest_eq (registers : ShaRegisters) :
    resultDigest registers.shaResult = registers.state.digest := by
  have word (index : Nat) : leBytes 4 (registers.shaResult index).toNat =
      beBytes 4 (registers.state.words.getD (7 - index) 0).toNat :=
    leBytes_word (by simp)
  refine Digest.ext ?_
  simp only [resultDigest, Sha256.State.digest, word]
  simp [List.range_succ, Sha256.State.words]

/-! ### What the driver has been fed -/

namespace ShaDriver

/-- The driver has announced `blocks` blocks and taken `message`: whole blocks of it are in the
engine, the rest is in the buffer. -/
structure Fed (sc : ShaDriver) (blocks : Nat) (message : List Byte) : Prop where
  announced : sc.registers.shaDataNum = blocks
  total : sc.context.totalLength = BitVec.ofNat 64 (message.length * 8)
  bytes : sc.registers.bytes ++ sc.context.buffer = message
  whole : 64 ∣ sc.registers.bytes.length

theorem fed_init (inputSize : Nat) :
    (sha256Init inputSize).Fed ((inputSize + 64) % 2 ^ 32 / 64) [] :=
  ⟨rfl, rfl, rfl, Nat.dvd_zero 64⟩

namespace Fed

variable {sc : ShaDriver} {blocks : Nat} {message : List Byte}

/-- One round of the loop that leaves the buffer open. -/
theorem round_open (fed : sc.Fed blocks message) (data : List Byte)
    (room : (sc.filled data).length < 64) :
    Fed ⟨sc.registers, ⟨sc.context.totalLength + BitVec.ofNat 64 (sc.bytesToCopy data * 8),
      sc.filled data, room⟩⟩ blocks (message ++ data.take (sc.bytesToCopy data)) where
  announced := fed.announced
  total := by
    show sc.context.totalLength + _ = _
    rw [fed.total, List.length_append, List.length_take_of_le (sc.bytesToCopy_bounds data).1,
      Nat.add_mul, BitVec.ofNat_add]
  bytes := by
    show sc.registers.bytes ++ (sc.context.buffer ++ _) = _
    rw [← List.append_assoc, fed.bytes]
  whole := fed.whole

/-- One round of the loop that fills the buffer. -/
theorem round_full (fed : sc.Fed blocks message) (data : List Byte)
    (full : (sc.filled data).length = 64) (room : ([] : List Byte).length < 64) :
    Fed ⟨⟨sc.registers.shaDataNum, sc.registers.shaDataIn1 ++ bufferWords 16 (sc.filled data)⟩,
      ⟨sc.context.totalLength + BitVec.ofNat 64 (sc.bytesToCopy data * 8), [], room⟩⟩ blocks
      (message ++ data.take (sc.bytesToCopy data)) := by
  have pushed : ShaRegisters.bytes ⟨sc.registers.shaDataNum,
      sc.registers.shaDataIn1 ++ bufferWords 16 (sc.filled data)⟩ =
      sc.registers.bytes ++ sc.filled data := by
    rw [ShaRegisters.bytes, List.flatMap_append, bufferWords_bytes full]
    rfl
  refine ⟨fed.announced, ?_, ?_, ?_⟩
  · show sc.context.totalLength + _ = _
    rw [fed.total, List.length_append, List.length_take_of_le (sc.bytesToCopy_bounds data).1,
      Nat.add_mul, BitVec.ofNat_add]
  · rw [pushed, List.append_nil, filled, ← List.append_assoc, fed.bytes]
  · rw [pushed, List.length_append, full]
    exact Nat.dvd_add fed.whole (Nat.dvd_refl 64)

/-- **An update appends its data.** -/
theorem update (fed : sc.Fed blocks message) (data : List Byte) :
    (sc.sha256Update data).Fed blocks (message ++ data) := by
  induction size : data.length using Nat.strong_induction_on generalizing sc message data with
  | _ length ih =>
      rw [ShaDriver.sha256Update]
      by_cases more : data ≠ []
      · obtain ⟨bound, _, positive⟩ := sc.bytesToCopy_bounds data
        have shorter : (data.drop (sc.bytesToCopy data)).length < length := by
          have := positive more
          rw [List.length_drop]
          omega
        have whole : message ++ data = message ++ data.take (sc.bytesToCopy data) ++
            data.drop (sc.bytesToCopy data) := by
          rw [List.append_assoc, List.take_append_drop]
        rw [dif_pos more, whole]
        split
        · rename_i full
          exact ih _ shorter (fed.round_full data full (by decide)) _ rfl
        · exact ih _ shorter (fed.round_open data _) _ rfl
      · rw [dif_neg more, not_not.mp more, List.append_nil]
        exact fed

/-- **Any updates append their data.** -/
theorem updates (fed : sc.Fed blocks message) (pieces : List (List Byte)) :
    (pieces.foldl ShaDriver.sha256Update sc).Fed blocks (message ++ pieces.flatten) := by
  induction pieces generalizing sc message with
  | nil =>
      rw [List.flatten_nil, List.append_nil]
      exact fed
  | cons piece rest ih =>
      rw [List.foldl_cons, List.flatten_cons, ← List.append_assoc]
      exact ih (fed.update piece)

/-- The buffer has what is left of the last block. -/
theorem buffered (fed : sc.Fed blocks message) :
    sc.context.buffer.length = message.length % 64 := by
  have length : sc.registers.bytes.length + sc.context.buffer.length = message.length := by
    rw [← List.length_append, fed.bytes]
  have short := sc.context.room
  have whole := fed.whole
  omega

/-- The engine has the whole blocks. -/
theorem pushed (fed : sc.Fed blocks message) :
    sc.registers.bytes.length = 64 * (message.length / 64) := by
  have length : sc.registers.bytes.length + sc.context.buffer.length = message.length := by
    rw [← List.length_append, fed.bytes]
  have rest := fed.buffered
  omega

end Fed

/-! ### The end of a message -/

/-- The driver after the two updates of `sha256_final`. -/
def ended (sc : ShaDriver) : ShaDriver :=
  let bytesToPad := 120 - sc.context.buffer.length
  let bytesToPad := if bytesToPad > 64 then bytesToPad - 64 else bytesToPad
  let lengthPad := byteSwap64 sc.context.totalLength
  (sc.sha256Update (padding.take bytesToPad)).sha256Update (leBytes 8 lengthPad.toNat)

/-- `sha256_final` reads its result off there. -/
theorem sha256Final_eq (sc : ShaDriver) :
    sc.sha256Final = resultDigest sc.ended.registers.shaResult := rfl

/-- How many bytes of `padding` a message of a length takes. -/
def padLength (length : Nat) : Nat :=
  if length % 64 ≤ 55 then 56 - length % 64 else 120 - length % 64

theorem padLength_bounds (length : Nat) :
    0 < padLength length ∧ padLength length ≤ 64 ∧
      length + padLength length + 8 = 64 * ((length + 72) / 64) := by
  unfold padLength
  split <;> omega

/-- What `sha256_final` appends to a message. -/
def ending (message : List Byte) : List Byte :=
  padding.take (padLength message.length) ++ beBytes 8 (8 * message.length)

theorem padding_length : padding.length = 64 := by decide

theorem append_ending_length (message : List Byte) :
    (message ++ ending message).length = 64 * ((message.length + 72) / 64) := by
  obtain ⟨_, short, whole⟩ := padLength_bounds message.length
  rw [ending, List.length_append, List.length_append,
    List.length_take_of_le (by rwa [padding_length]), Sha256.beBytes_length]
  omega

/-- **The beginnings of `padding`** are a 0x80 and zeros up to its last but one byte. -/
theorem padding_take_iff {count : Nat} (positive : 0 < count) (short : count ≤ 64) :
    padding.take count = 0x80#8 :: List.replicate (count - 1) 0 ↔ count ≤ 62 := by
  constructor
  · intro same
    by_contra long
    rcases (by omega : count = 63 ∨ count = 64) with rfl | rfl
    · exact absurd same (by decide)
    · exact absurd same (by decide)
  · intro zeros
    obtain ⟨count, rfl⟩ : ∃ fewer, count = fewer + 1 := ⟨count - 1, by omega⟩
    rw [padding, List.cons_append, List.take_succ_cons,
      List.take_append_of_le_length (by simp; omega), List.take_replicate,
      Nat.min_eq_left (by omega), Nat.add_sub_cancel]

/-- What `sha256_final` appends is the padding of SHA-256, but for two residues. -/
theorem append_ending_iff (message : List Byte) :
    message ++ ending message = Sha256.pad message ↔
      message.length % 64 ≠ 56 ∧ message.length % 64 ≠ 57 := by
  obtain ⟨positive, short, _⟩ := padLength_bounds message.length
  have zeros : (119 - message.length % 64) % 64 = padLength message.length - 1 := by
    unfold padLength
    split <;> omega
  have bound : padLength message.length ≤ 62 ↔
      message.length % 64 ≠ 56 ∧ message.length % 64 ≠ 57 := by
    unfold padLength
    split <;> omega
  rw [Sha256.pad, zeros, ending, ← List.append_assoc, List.append_left_inj,
    List.append_right_inj, padding_take_iff positive short, bound]

section Ended

variable {sc : ShaDriver} {blocks : Nat} {message : List Byte}

/-- **`sha256_final` appends its ending.** -/
theorem Fed.ended (fed : sc.Fed blocks message) :
    sc.ended.Fed blocks (message ++ ending message) := by
  have bytesToPad : (if 120 - sc.context.buffer.length > 64 then 120 - sc.context.buffer.length - 64
      else 120 - sc.context.buffer.length) = padLength message.length := by
    rw [fed.buffered, padLength]
    split <;> split <;> omega
  have lengthPad : leBytes 8 (byteSwap64 sc.context.totalLength).toNat =
      beBytes 8 (8 * message.length) := by
    rw [leBytes_byteSwap64, fed.total, BitVec.toNat_ofNat, Nat.mul_comm]
    exact congrArg List.reverse (leBytes_mod 8 _)
  rw [ShaDriver.ended, bytesToPad, lengthPad, ending, ← List.append_assoc]
  exact (fed.update _).update _

/-- The ending fills the last block: nothing is left in the buffer. -/
theorem Fed.ended_empty (fed : sc.Fed blocks message) :
    sc.ended.context.buffer = [] ∧ sc.ended.registers.bytes = message ++ ending message := by
  have empty : sc.ended.context.buffer = [] := by
    rw [← List.length_eq_zero_iff, fed.ended.buffered, append_ending_length,
      Nat.mul_mod_right]
  refine ⟨empty, ?_⟩
  rw [← fed.ended.bytes, empty, List.append_nil]

/-- **The result** for a message whose last block has room for the length. -/
theorem Fed.final (fed : sc.Fed (message.length / 64 + 1) message)
    (room : message.length % 64 ≤ 55) : sc.sha256Final = sha256 message := by
  have padded : sc.ended.registers.bytes = Sha256.pad message := by
    rw [fed.ended_empty.2, append_ending_iff]
    omega
  have length : (Sha256.pad message).length / 64 = message.length / 64 + 1 := by
    rw [Sha256.pad_length]
    omega
  rw [sha256Final_eq, resultDigest_eq, ShaRegisters.state, fed.ended.announced, padded, sha256,
    length]

end Ended

end ShaDriver

/-- **The driver computes SHA-256** of messages whose last block has room for the length, fed in
any pieces. -/
theorem shaDriver_digest (pieces : List (List Byte)) (room : pieces.flatten.length % 64 ≤ 55)
    (small : pieces.flatten.length + 64 < 2 ^ 32) :
    shaDriver.digest pieces.flatten.length pieces = sha256 pieces.flatten := by
  have blocks : (pieces.flatten.length + 64) % 2 ^ 32 / 64 = pieces.flatten.length / 64 + 1 := by
    rw [Nat.mod_eq_of_lt small]
    omega
  have done := (ShaDriver.fed_init pieces.flatten.length).updates pieces
  rw [blocks] at done
  exact done.final room

end K210Guard
