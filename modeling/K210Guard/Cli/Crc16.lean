/-
**The CRC of `crc_16`** (`cli/crc16.c`).

The table makes `crc_16` shift eight bits at a time. What it computes is the remainder of a division
of polynomials over GF(2).

* `crc16_remainder`: the message times `X ^ 16`, divided by `X ^ 16 + X ^ 15 + X ^ 2 + 1`.
* `crc16_check_bytes`: a message and two bytes have CRC zero when the bytes are the CRC, low byte
  first.
* `crc16_detects`: the changes of a message that its CRC shows.
-/

import Mathlib.Tactic.NormNum.Prime
import K210Guard.Cli.Handlers
import K210Guard.Coding.ErrorDetection

namespace K210Guard

open Polynomial ShiftRegister

/-! ### The table -/

/-- The loop of `init_crc16_tab`: the two registers together are one that is clocked. -/
theorem crcTab16_loop (i count : Nat) :
    let last := (List.range count).foldl (fun (crc, c) _ =>
      (if (crc ^^^ c) &&& 1 ≠ 0 then crc >>> 1 ^^^ 0xA001 else crc >>> 1, c >>> 1)) (0, i)
    last.2 = i >>> count ∧ last.1 ^^^ last.2 = (clock 0xA001)^[count] i := by
  induction count with
  | zero => simp
  | succ count ih =>
      obtain ⟨shifted, clocked⟩ := ih
      rw [List.range_succ, List.foldl_append, Function.iterate_succ_apply', ← clocked]
      simp only [List.foldl_cons, List.foldl_nil, clock, Nat.shiftRight_xor_distrib]
      refine ⟨by rw [shifted, Nat.shiftRight_add], ?_⟩
      have lowest (x : Nat) : x &&& 1 ≠ 0 ↔ x.testBit 0 = true := by
        simp [Nat.testBit_zero, Nat.and_one_is_mod]
      simp only [lowest]
      split_ifs
      · rw [Nat.xor_assoc, Nat.xor_assoc, Nat.xor_comm 0xA001]
      · rfl

/-- An entry of the table is its index after eight clocks. -/
theorem crcTab16_eq {i : Nat} (small : i < 2 ^ 8) : crcTab16 i = (clock 0xA001)^[8] i := by
  obtain ⟨shifted, clocked⟩ := crcTab16_loop i 8
  rw [shifted, Nat.shiftRight_eq_div_pow, Nat.div_eq_of_lt small, Nat.xor_zero] at clocked
  exact clocked

/-- The numbers of the bytes of a message. -/
def messageWords (bytes : List Byte) : List Nat := bytes.map BitVec.toNat

theorem messageWords_short (bytes : List Byte) : ∀ word ∈ messageWords bytes, word < 2 ^ 8 := by
  intro word member
  obtain ⟨byte, -, rfl⟩ := List.mem_map.mp member
  exact byte.isLt

/-- **The table against the bits**: a byte looked up is a byte fed. -/
theorem crc16Of_eq_feed (bytes : List Byte) :
    crc16Of bytes = (messageWords bytes).foldl (feed 8 0xA001) 0 := by
  rw [crc16Of, messageWords, List.foldl_map]
  congr 1
  funext crc byte
  have masked : (crc ^^^ byte.toNat) &&& 0xFF = (crc ^^^ byte.toNat) % 2 ^ 8 :=
    Nat.and_two_pow_sub_one_eq_mod _ 8
  have high : (crc ^^^ byte.toNat) >>> 8 = crc >>> 8 := by
    rw [Nat.shiftRight_xor_distrib, Nat.shiftRight_eq_div_pow byte.toNat,
      Nat.div_eq_of_lt byte.isLt, Nat.xor_zero]
  rw [feed, clocks_eq, high, masked, crcTab16_eq (Nat.mod_lt _ (by decide))]

/-! ### The remainder -/

/-- The bits of a message, in the order of the wire: of each byte bit 0 first. -/
def byteBits (bytes : List Byte) : List Bool := messageBits 8 (messageWords bytes)

theorem length_byteBits (bytes : List Byte) : (byteBits bytes).length = 8 * bytes.length := by
  rw [byteBits, length_messageBits, messageWords, List.length_map]

theorem byteBits_injective {bytes others : List Byte} (lengths : bytes.length = others.length)
    (same : byteBits bytes = byteBits others) : bytes = others := by
  induction bytes generalizing others with
  | nil => exact (List.length_eq_zero_iff.mp lengths.symm).symm
  | cons byte rest ih =>
      cases others with
      | nil => simp at lengths
      | cons other more =>
          obtain ⟨first, tail⟩ := List.append_inj same (by simp)
          rw [BitVec.eq_of_toNat_eq (wordBits_injective byte.isLt other.isLt first),
            ih (Nat.succ_injective lengths) tail]

/-- The generator of the CRC. -/
theorem generator_crc16 : generator 16 0xA001 = X ^ 16 + X ^ 15 + X ^ 2 + 1 := by
  have bits : wordBits 16 0xA001 = true :: (List.replicate 12 false ++
      [true] ++ [false, true]) := by decide
  rw [generator, bits, bitPolynomial, bitPolynomial_append, bitPolynomial_append]
  simp [bitPolynomial]
  ring

/-- **`crc_16` is a remainder**: of the message times `X ^ 16`. -/
theorem crc16_remainder (bytes : List Byte) : bitPolynomial (wordBits 16 (crc16Of bytes)) =
    (bitPolynomial (byteBits bytes) * X ^ 16) %ₘ (X ^ 16 + X ^ 15 + X ^ 2 + 1) := by
  rw [crc16Of_eq_feed, polynomial_words (by decide) _ (messageWords_short bytes) (by decide),
    generator_crc16]
  rfl

/-! ### Check bytes -/

/-- **Check bytes**: with the two bytes of its CRC, low byte first, and with no others, a message
has CRC zero. -/
theorem crc16_check_bytes (bytes : List Byte) (low high : Byte) :
    crc16Of (bytes ++ [low, high]) = 0 ↔ leNat [low, high] = crc16Of bytes := by
  have fed : crc16Of (bytes ++ [low, high]) =
      (clock 0xA001)^[16] (crc16Of bytes ^^^ leNat [low, high]) := by
    rw [crc16Of_eq_feed, messageWords, List.map_append, List.foldl_append, ← messageWords,
      ← crc16Of_eq_feed]
    exact feed_feed low.isLt 8 (crc16Of bytes) high.toNat
  have small : crc16Of bytes < 2 ^ 16 := by
    rw [crc16Of_eq_feed]
    exact (residue_words (by decide) _ (messageWords_short bytes) (by decide) (by decide)).1
  have word : leNat [low, high] < 2 ^ 16 :=
    (leNat_lt [low, high]).trans_eq (by norm_num)
  have empty : clock 0xA001 0 = 0 := by simp [clock]
  have zero := Function.iterate_fixed empty 16
  rw [fed]
  constructor
  · intro clear
    have none := clocks_injective (by decide : Nat.testBit 0xA001 15) (by decide) 16
      (Nat.xor_lt_two_pow small word) (by decide) (clear.trans zero.symm)
    rw [← Nat.zero_xor (leNat [low, high]), ← none, Nat.xor_assoc, Nat.xor_self, Nat.xor_zero]
  · intro same
    rw [same, Nat.xor_self, zero]

/-! ### Detection -/

/-- The order of `X`: `32767` is `7 * 31 * 151`. -/
theorem orderOf_crc16 : orderOf (AdjoinRoot.root (generator 16 0xA001)) = 32767 := by
  have powers (exponent : List Bool) :
      AdjoinRoot.root (generator 16 0xA001) ^ exponentOf exponent = 1 ↔
        power 16 0xA001 exponent = 2 ^ 15 := by
    obtain ⟨small, value⟩ := residue_power (by decide : 0 < 16) (by decide : 0xA001 < 2 ^ 16)
      exponent
    rw [← value, ← residue_one (by decide : 0 < 16)]
    exact ⟨residue_injective small (by decide), fun same => by rw [same]⟩
  have proper (exponent : List Bool) (other : power 16 0xA001 exponent ≠ 2 ^ 15) :
      AdjoinRoot.root (generator 16 0xA001) ^ exponentOf exponent ≠ 1 :=
    fun one => other ((powers exponent).mp one)
  refine orderOf_eq_of_pow_and_pow_div_prime (by decide)
    ((powers (List.replicate 15 true)).mpr (by decide +kernel)) fun prime isPrime divides => ?_
  have factor : prime = 7 ∨ prime = 31 ∨ prime = 151 := by
    have product : prime ∣ 7 * 31 * 151 := divides
    rcases isPrime.dvd_mul.mp product with inside | last
    · rcases isPrime.dvd_mul.mp inside with first | second
      · exact .inl ((Nat.prime_dvd_prime_iff_eq isPrime (by norm_num)).mp first)
      · exact .inr (.inl ((Nat.prime_dvd_prime_iff_eq isPrime (by norm_num)).mp second))
    · exact .inr (.inr ((Nat.prime_dvd_prime_iff_eq isPrime (by norm_num)).mp last))
  rcases factor with rfl | rfl | rfl
  · exact proper (Nat.bits 4681).reverse (by decide +kernel)
  · exact proper (Nat.bits 1057).reverse (by decide +kernel)
  · exact proper (Nat.bits 217).reverse (by decide +kernel)

/-- **What the CRC shows** of a message that was changed in some places: an odd number of them, a
burst of sixteen places, and two of them unless their distance is a multiple of 32767. -/
theorem crc16_detects {message received : List Byte} (lengths : message.length = received.length)
    (changed : message ≠ received) :
    let places := differing (byteBits message) (byteBits received)
    (Odd places.card → crc16Of message ≠ crc16Of received) ∧
      (∀ first, (∀ i ∈ places, first ≤ i ∧ i < first + 16) →
        crc16Of message ≠ crc16Of received) ∧
      ∀ i j, i < j → places = {i, j} →
        (crc16Of message = crc16Of received ↔ 32767 ∣ j - i) := by
  have lengths' : (byteBits message).length = (byteBits received).length := by
    rw [length_byteBits, length_byteBits, lengths]
  have same : crc16Of message = crc16Of received ↔
      generator 16 0xA001 ∣
        bitPolynomial (byteBits message) - bitPolynomial (byteBits received) := by
    rw [crc16Of_eq_feed, crc16Of_eq_feed]
    exact same_iff (by decide) (by decide : Nat.testBit 0xA001 15) (by decide)
      (messageWords_short message)
      (messageWords_short received)
  have changed' : byteBits message ≠ byteBits received :=
    fun equal => changed (byteBits_injective lengths equal)
  refine ⟨fun odd equal => ?_, fun first burst equal => ?_, fun i j order pair => ?_⟩
  · exact (Nat.not_even_iff_odd.mpr odd) (even_of_dvd (by decide) lengths' (same.mp equal))
  · exact burst_not_dvd (by decide) lengths' changed' burst (same.mp equal)
  · rw [same, pair_dvd_iff (by decide : Nat.testBit 0xA001 15) lengths' order pair, orderOf_crc16]

theorem crc16_detects_apart : crc16Of [1, 0, 0] ≠ crc16Of [0, 0, 1] := by
  have places : differing (byteBits [1, 0, 0]) (byteBits [0, 0, 1]) = {0, 16} := by decide
  have shown := (crc16_detects (by rfl : [1, 0, 0].length = [0, 0, 1].length) (by decide)).2.2 0 16
    (by decide) places
  exact fun same => absurd (shown.mp same) (by decide)

end K210Guard
