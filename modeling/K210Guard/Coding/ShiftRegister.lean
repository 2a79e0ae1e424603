/-
**Shift registers with feedback.**

A list of bits is a polynomial over GF(2), the first bit at the highest power; a register of
`width` bits is the polynomial of its bits from bit 0 on. A clock shifts the register right by a
bit, and a set bit that falls out turns the feedback over. Modulo the generator, `X ^ width` plus
the polynomial of the feedback, a clock is a multiplication by `X`.

* `residue_words`: a register fed with words is the message times `X ^ width`, modulo the
  generator, and `bitPolynomial_words` the remainder itself.
* `same_iff`: two messages leave the same register when the generator divides their difference.
-/

import Mathlib.Algebra.CharP.Two
import Mathlib.Algebra.Field.ZMod
import Mathlib.RingTheory.AdjoinRoot

namespace K210Guard

open Polynomial

/-! ### Bits as polynomials -/

/-- The polynomial of a list of bits. -/
noncomputable def bitPolynomial : List Bool → (ZMod 2)[X]
  | [] => 0
  | bit :: rest => (if bit then X ^ rest.length else 0) + bitPolynomial rest

theorem bitPolynomial_append (bits more : List Bool) :
    bitPolynomial (bits ++ more) = bitPolynomial bits * X ^ more.length + bitPolynomial more := by
  induction bits with
  | nil => simp [bitPolynomial]
  | cons bit rest ih =>
      rw [List.cons_append, bitPolynomial, bitPolynomial, ih, List.length_append, pow_add]
      split_ifs <;> ring

@[simp] theorem bitPolynomial_zeros (count : Nat) :
    bitPolynomial (List.replicate count false) = 0 := by
  induction count with
  | zero => rfl
  | succ count ih => simp [List.replicate_succ, bitPolynomial, ih]

/-- Bits turned over add up. -/
theorem bitPolynomial_xor (bits more : List Bool) (lengths : bits.length = more.length) :
    bitPolynomial (List.zipWith xor bits more) = bitPolynomial bits + bitPolynomial more := by
  induction bits generalizing more with
  | nil =>
      rw [List.length_eq_zero_iff.mp lengths.symm]
      simp [bitPolynomial]
  | cons bit rest ih =>
      cases more with
      | nil => simp at lengths
      | cons other others =>
          have tail := Nat.succ_injective lengths
          have sum (power : (ZMod 2)[X]) : (if xor bit other then power else 0)
              = (if bit then power else 0) + (if other then power else 0) := by
            cases bit <;> cases other <;> simp [CharTwo.add_self_eq_zero]
          rw [List.zipWith_cons_cons, bitPolynomial, bitPolynomial, bitPolynomial, ih others tail,
            sum, List.length_zipWith, ← tail, Nat.min_self]
          ring

theorem degree_bitPolynomial_lt (bits : List Bool) : (bitPolynomial bits).degree < bits.length := by
  induction bits with
  | nil => simp [bitPolynomial]
  | cons bit rest ih =>
      have longer : (rest.length : WithBot ℕ) < (bit :: rest).length := by
        simp only [List.length_cons]
        exact_mod_cast Nat.lt_succ_self rest.length
      rw [bitPolynomial]
      refine (degree_add_le _ _).trans_lt (max_lt ?_ (ih.trans longer))
      split_ifs
      · rwa [degree_X_pow]
      · rw [degree_zero]
        exact bot_le.trans_lt longer

/-- Lists of one length have different polynomials. -/
theorem bitPolynomial_injective {bits more : List Bool} (lengths : bits.length = more.length)
    (same : bitPolynomial bits = bitPolynomial more) : bits = more := by
  induction bits generalizing more with
  | nil => exact (List.length_eq_zero_iff.mp lengths.symm).symm
  | cons bit rest ih =>
      cases more with
      | nil => simp at lengths
      | cons other others =>
          have tail : rest.length = others.length := Nat.succ_injective lengths
          -- the first bit is the coefficient of the highest power
          have top (bit : Bool) (rest : List Bool) :
              (bitPolynomial (bit :: rest)).coeff rest.length = if bit then 1 else 0 := by
            rw [bitPolynomial, coeff_add, coeff_eq_zero_of_degree_lt (degree_bitPolynomial_lt rest)]
            split_ifs <;> simp
          have first : bit = other := by
            have coefficients := top bit rest
            rw [same, tail, top other others] at coefficients
            cases bit <;> cases other <;> simp_all
          subst first
          rw [bitPolynomial, bitPolynomial, tail] at same
          rw [ih tail (add_left_cancel same)]

/-! ### Registers -/

/-- The bits of a word, bit 0 first. -/
def wordBits (width word : Nat) : List Bool := (List.range width).map word.testBit

@[simp] theorem length_wordBits (width word : Nat) : (wordBits width word).length = width := by
  simp [wordBits]

theorem wordBits_injective {width word other : Nat} (small : word < 2 ^ width)
    (small' : other < 2 ^ width) (same : wordBits width word = wordBits width other) :
    word = other := by
  refine Nat.eq_of_testBit_eq fun i => ?_
  rcases Nat.lt_or_ge i width with inside | outside
  · exact List.map_inj_left.mp same i (List.mem_range.mpr inside)
  · rw [Nat.testBit_lt_two_pow (small.trans_le (Nat.pow_le_pow_right (by decide) outside)),
      Nat.testBit_lt_two_pow (small'.trans_le (Nat.pow_le_pow_right (by decide) outside))]

theorem wordBits_xor (width word other : Nat) :
    wordBits width (word ^^^ other) =
      List.zipWith xor (wordBits width word) (wordBits width other) := by
  simp [wordBits, List.zipWith_map, List.zipWith_self]

/-- A short word in a long register. -/
theorem wordBits_of_lt {size word : Nat} (small : word < 2 ^ size) (more : Nat) :
    wordBits (size + more) word = wordBits size word ++ List.replicate more false := by
  rw [wordBits, List.range_add, List.map_append, List.map_map, wordBits]
  congr 1
  refine List.eq_replicate_iff.mpr ⟨by simp, fun bit member => ?_⟩
  obtain ⟨i, -, rfl⟩ := List.mem_map.mp member
  exact Nat.testBit_lt_two_pow
    (small.trans_le (Nat.pow_le_pow_right (by decide) (Nat.le_add_right size i)))

/-- A long word, cut in two. -/
theorem wordBits_add (size more word : Nat) :
    wordBits (size + more) word = wordBits size word ++ wordBits more (word >>> size) := by
  rw [wordBits, List.range_add, List.map_append, List.map_map, wordBits, wordBits]
  congr 1
  refine List.map_congr_left fun i _ => ?_
  rw [Nat.testBit_shiftRight, Function.comp_apply]

namespace ShiftRegister

/-- One clock of a register. -/
def clock (feedback register : Nat) : Nat :=
  if register.testBit 0 then register >>> 1 ^^^ feedback else register >>> 1

/-- Feeding a word: it is added to the low bits, and shifted through. -/
def feed (size feedback register word : Nat) : Nat := (clock feedback)^[size] (register ^^^ word)

/-- The generator of a register. -/
noncomputable def generator (width feedback : Nat) : (ZMod 2)[X] :=
  X ^ width + bitPolynomial (wordBits width feedback)

/-- The residue of a register. -/
noncomputable def residue (width feedback register : Nat) : AdjoinRoot (generator width feedback) :=
  AdjoinRoot.mk _ (bitPolynomial (wordBits width register))

variable {width feedback : Nat}

theorem degree_feedback_lt : (bitPolynomial (wordBits width feedback)).degree < width := by
  simpa using degree_bitPolynomial_lt (wordBits width feedback)

theorem generator_monic : (generator width feedback).Monic :=
  monic_X_pow_add degree_feedback_lt

theorem degree_generator : (generator width feedback).degree = width := by
  rw [generator, degree_add_eq_left_of_degree_lt (by rw [degree_X_pow]; exact degree_feedback_lt),
    degree_X_pow]

/-- Over GF(2) the generator is zero where `X ^ width` is the feedback. -/
theorem root_pow_width : AdjoinRoot.root (generator width feedback) ^ width =
    residue width feedback feedback := by
  rw [residue, ← AdjoinRoot.mk_X, ← map_pow, AdjoinRoot.mk_eq_mk, CharTwo.sub_eq_add]
  exact dvd_rfl

@[simp] theorem residue_zero : residue width feedback 0 = 0 := by
  have zeros : wordBits width 0 = List.replicate width false :=
    List.eq_replicate_iff.mpr ⟨by simp, by simp [wordBits]⟩
  rw [residue, zeros, bitPolynomial_zeros, map_zero]

theorem residue_xor (register other : Nat) : residue width feedback (register ^^^ other) =
    residue width feedback register + residue width feedback other := by
  rw [residue, wordBits_xor, bitPolynomial_xor _ _ (by simp), map_add, residue, residue]

/-- **Registers of one residue** are equal. -/
theorem residue_injective {register other : Nat} (small : register < 2 ^ width)
    (small' : other < 2 ^ width)
    (same : residue width feedback register = residue width feedback other) : register = other := by
  refine wordBits_injective small small' (bitPolynomial_injective (by simp) ?_)
  rw [← sub_eq_zero]
  refine eq_zero_of_dvd_of_degree_lt (AdjoinRoot.mk_eq_mk.mp same) ?_
  rw [degree_generator]
  refine (degree_sub_le _ _).trans_lt (max_lt ?_ ?_)
  · simpa using degree_bitPolynomial_lt (wordBits width register)
  · simpa using degree_bitPolynomial_lt (wordBits width other)

/-! ### Clocks -/

theorem clock_lt {register : Nat} (small : register < 2 ^ width) (room : feedback < 2 ^ width) :
    clock feedback register < 2 ^ width := by
  have half : register >>> 1 < 2 ^ width := (Nat.shiftRight_le register 1).trans_lt small
  rw [clock]
  split_ifs
  · exact Nat.xor_lt_two_pow half room
  · exact half

/-- **A clock multiplies by `X`.** -/
theorem residue_clock {register : Nat} (small : register < 2 ^ width) :
    residue width feedback (clock feedback register) =
      AdjoinRoot.root _ * residue width feedback register := by
  cases width with
  | zero =>
      rw [Nat.lt_one_iff.mp small]
      simp [clock, residue, wordBits, bitPolynomial]
  | succ width =>
      -- a shift drops bit 0, and the zero that comes in multiplies the others by `X`
      have shifted : residue (width + 1) feedback (register >>> 1) =
          AdjoinRoot.mk _ (bitPolynomial (wordBits width (register >>> 1)) * X) := by
        have half : register >>> 1 < 2 ^ width := by
          rw [Nat.shiftRight_eq_div_pow]
          omega
        rw [residue, wordBits_of_lt half, bitPolynomial_append]
        simp [bitPolynomial]
      have whole : residue (width + 1) feedback register = AdjoinRoot.mk _
          ((if register.testBit 0 then X ^ width else 0) +
            bitPolynomial (wordBits width (register >>> 1))) := by
        rw [residue, Nat.add_comm, wordBits_add, bitPolynomial_append]
        simp [wordBits, bitPolynomial]
      have turned : AdjoinRoot.root (generator (width + 1) feedback) ^ (width + 1) =
          residue (width + 1) feedback feedback := root_pow_width
      rw [pow_succ'] at turned
      rw [whole, clock]
      split_ifs
      · rw [residue_xor, shifted, ← turned]
        simp only [map_add, map_mul, map_pow, AdjoinRoot.mk_X]
        ring
      · rw [shifted]
        simp only [map_mul, AdjoinRoot.mk_X, zero_add]
        ring

theorem residue_clocks {register : Nat} (small : register < 2 ^ width)
    (room : feedback < 2 ^ width) (count : Nat) :
    (clock feedback)^[count] register < 2 ^ width ∧
      residue width feedback ((clock feedback)^[count] register) =
        AdjoinRoot.root _ ^ count * residue width feedback register := by
  induction count with
  | zero => simpa using small
  | succ count ih =>
      rw [Function.iterate_succ_apply', residue_clock ih.1, ih.2, pow_succ']
      exact ⟨clock_lt ih.1 room, (mul_assoc _ _ _).symm⟩

/-! ### Clocks by table -/

theorem clock_xor (register other : Nat) :
    clock feedback (register ^^^ other) = clock feedback register ^^^ clock feedback other := by
  simp only [clock, Nat.testBit_xor, Nat.shiftRight_xor_distrib]
  cases register.testBit 0 <;> cases other.testBit 0 <;>
    simp only [Bool.xor_false, Bool.xor_true, Bool.not_false, Bool.not_true, if_true, if_false,
      Bool.false_eq_true]
  · rw [Nat.xor_assoc]
  · rw [Nat.xor_assoc, Nat.xor_comm _ feedback, ← Nat.xor_assoc]
  · rw [Nat.xor_comm (other >>> 1), Nat.xor_assoc, ← Nat.xor_assoc feedback, Nat.xor_self,
      Nat.zero_xor]

theorem clocks_xor (count register other : Nat) : (clock feedback)^[count] (register ^^^ other) =
    (clock feedback)^[count] register ^^^ (clock feedback)^[count] other := by
  induction count generalizing register other with
  | zero => rfl
  | succ count ih => rw [Function.iterate_succ_apply, clock_xor, ih]; rfl

/-- High bits are only shifted. -/
theorem clocks_shiftLeft (count register : Nat) :
    (clock feedback)^[count] (register <<< count) = register := by
  induction count with
  | zero => rfl
  | succ count ih =>
      have even : (register <<< (count + 1)).testBit 0 = false := by simp
      rw [Function.iterate_succ_apply, clock, even, Nat.shiftLeft_add, Nat.shiftLeft_shiftRight]
      exact ih

/-- **Clocks by table**: the low bits are looked up, the others shifted. -/
theorem clocks_eq (count register : Nat) : (clock feedback)^[count] register =
    register >>> count ^^^ (clock feedback)^[count] (register % 2 ^ count) := by
  have parts : register = register >>> count <<< count ^^^ register % 2 ^ count := by
    refine Nat.eq_of_testBit_eq fun i => ?_
    by_cases low : i < count
    · simp [low, Nat.not_le.mpr low]
    · simp [low, Nat.not_lt.mp low]
  conv_lhs => rw [parts]
  rw [clocks_xor, clocks_shiftLeft]

/-- Two words fed are one long word fed. -/
theorem feed_feed {size low : Nat} (short : low < 2 ^ size) (more register high : Nat) :
    feed more feedback (feed size feedback register low) high =
      feed (more + size) feedback register (low + 2 ^ size * high) := by
  have long : low + 2 ^ size * high = low ^^^ high <<< size := by
    refine Nat.eq_of_testBit_eq fun i => ?_
    rw [Nat.add_comm, Nat.testBit_two_pow_mul_add _ short, Nat.testBit_xor, Nat.testBit_shiftLeft]
    by_cases inside : i < size
    · simp [inside, Nat.not_le.mpr inside]
    · have outside := Nat.not_lt.mp inside
      simp [inside, outside, Nat.testBit_lt_two_pow
        (short.trans_le (Nat.pow_le_pow_right (by decide) outside))]
  rw [feed, feed, feed, long, ← Nat.xor_assoc, Function.iterate_add_apply,
    clocks_xor size _ (high <<< size), clocks_shiftLeft]

/-! ### Words -/

/-- The bits of a message of words, in the order they are fed. -/
def messageBits (size : Nat) (words : List Nat) : List Bool := words.flatMap (wordBits size)

@[simp] theorem length_messageBits (size : Nat) (words : List Nat) :
    (messageBits size words).length = size * words.length := by
  simp [messageBits, Nat.mul_comm]

theorem residue_feed {size register word : Nat} (fits : size ≤ width) (short : word < 2 ^ size)
    (small : register < 2 ^ width) (room : feedback < 2 ^ width) :
    feed size feedback register word < 2 ^ width ∧
      residue width feedback (feed size feedback register word) =
        AdjoinRoot.root _ ^ size * residue width feedback register +
          AdjoinRoot.root _ ^ width * AdjoinRoot.mk _ (bitPolynomial (wordBits size word)) := by
  obtain ⟨more, rfl⟩ := Nat.exists_eq_add_of_le fits
  have low : word < 2 ^ (size + more) := short.trans_le (Nat.pow_le_pow_right (by decide) fits)
  obtain ⟨small', clocked⟩ := residue_clocks (Nat.xor_lt_two_pow small low) room size
  refine ⟨small', clocked.trans ?_⟩
  rw [residue_xor, mul_add, pow_add, residue.eq_1 _ _ word, wordBits_of_lt short,
    bitPolynomial_append]
  simp only [bitPolynomial_zeros, List.length_replicate, map_mul, map_pow, AdjoinRoot.mk_X,
    add_zero]
  ring

/-- **Words fed one after the other**: what was in the register moves up, and the message comes in
`width` places up. -/
theorem residue_words {size register : Nat} (fits : size ≤ width) (words : List Nat)
    (short : ∀ word ∈ words, word < 2 ^ size) (small : register < 2 ^ width)
    (room : feedback < 2 ^ width) :
    words.foldl (feed size feedback) register < 2 ^ width ∧
      residue width feedback (words.foldl (feed size feedback) register) =
        AdjoinRoot.root _ ^ (size * words.length) * residue width feedback register +
          AdjoinRoot.root _ ^ width * AdjoinRoot.mk _ (bitPolynomial (messageBits size words)) := by
  induction words generalizing register with
  | nil => simpa [messageBits, bitPolynomial] using small
  | cons word rest ih =>
      obtain ⟨small', fed⟩ := residue_feed fits (short word List.mem_cons_self) small room
      obtain ⟨last, whole⟩ := ih (fun other member => short other (List.mem_cons_of_mem _ member))
        small'
      refine ⟨last, whole.trans ?_⟩
      rw [fed, messageBits, messageBits, List.flatMap_cons, bitPolynomial_append,
        List.length_cons, Nat.mul_succ, pow_add]
      simp only [map_add, map_mul, map_pow, AdjoinRoot.mk_X]
      rw [← messageBits, length_messageBits]
      ring

/-- **The remainder**: the register after a message, from zero on. -/
theorem polynomial_words {size : Nat} (fits : size ≤ width) (words : List Nat)
    (short : ∀ word ∈ words, word < 2 ^ size) (room : feedback < 2 ^ width) :
    bitPolynomial (wordBits width (words.foldl (feed size feedback) 0)) =
      (bitPolynomial (messageBits size words) * X ^ width) %ₘ generator width feedback := by
  have fed := (residue_words fits words short (Nat.two_pow_pos width) room).2
  have congruent : AdjoinRoot.mk (generator width feedback)
      (bitPolynomial (wordBits width (words.foldl (feed size feedback) 0))) =
        AdjoinRoot.mk _ (bitPolynomial (messageBits size words) * X ^ width) := by
    rw [← residue, fed, residue_zero, mul_zero, zero_add, map_mul, map_pow, AdjoinRoot.mk_X,
      mul_comm]
  rw [← modByMonic_eq_of_dvd_sub generator_monic (AdjoinRoot.mk_eq_mk.mp congruent), eq_comm,
    modByMonic_eq_self_iff generator_monic, degree_generator]
  simpa using degree_bitPolynomial_lt (wordBits width _)

/-- A feedback whose last bit is set makes the generator prime to `X`. -/
theorem coprime_X (last : feedback.testBit width) :
    IsCoprime X (generator (width + 1) feedback) := by
  have constant : (generator (width + 1) feedback).coeff 0 = 1 := by
    rw [generator, wordBits, List.range_succ, List.map_append, bitPolynomial_append]
    simp [bitPolynomial, last]
  refine (irreducible_X.coprime_iff_not_dvd).mpr fun divides => ?_
  rw [X_dvd_iff, constant] at divides
  exact one_ne_zero divides

/-- Such a feedback loses nothing. -/
theorem clocks_injective (last : feedback.testBit width) (room : feedback < 2 ^ (width + 1))
    (count : Nat) {register other : Nat} (small : register < 2 ^ (width + 1))
    (small' : other < 2 ^ (width + 1))
    (same : (clock feedback)^[count] register = (clock feedback)^[count] other) :
    register = other := by
  have residues : residue (width + 1) feedback ((clock feedback)^[count] register) =
      residue (width + 1) feedback ((clock feedback)^[count] other) := by rw [same]
  rw [(residue_clocks small room count).2, (residue_clocks small' room count).2,
    ← AdjoinRoot.mk_X, ← map_pow, residue, residue, ← map_mul, ← map_mul, AdjoinRoot.mk_eq_mk,
    ← mul_sub] at residues
  exact residue_injective small small' (AdjoinRoot.mk_eq_mk.mpr
    ((coprime_X last).symm.pow_right.dvd_of_dvd_mul_left residues))

/-- **Two messages leave the same register** when the generator divides their difference. -/
theorem same_iff {size : Nat} (fits : size ≤ width + 1) (last : feedback.testBit width)
    (room : feedback < 2 ^ (width + 1)) {words others : List Nat}
    (short : ∀ word ∈ words, word < 2 ^ size) (short' : ∀ word ∈ others, word < 2 ^ size) :
    words.foldl (feed size feedback) 0 = others.foldl (feed size feedback) 0 ↔
      generator (width + 1) feedback ∣
        bitPolynomial (messageBits size words) - bitPolynomial (messageBits size others) := by
  obtain ⟨small, fed⟩ := residue_words fits words short (Nat.two_pow_pos _) room
  obtain ⟨small', fed'⟩ := residue_words fits others short' (Nat.two_pow_pos _) room
  rw [residue_zero, mul_zero, zero_add, ← AdjoinRoot.mk_X, ← map_pow, ← map_mul] at fed fed'
  have residues : words.foldl (feed size feedback) 0 = others.foldl (feed size feedback) 0 ↔
      residue (width + 1) feedback (words.foldl (feed size feedback) 0) =
        residue (width + 1) feedback (others.foldl (feed size feedback) 0) :=
    ⟨fun same => by rw [same], residue_injective small small'⟩
  rw [residues, fed, fed', AdjoinRoot.mk_eq_mk, ← mul_sub]
  exact ⟨(coprime_X last).symm.pow_right.dvd_of_dvd_mul_left, fun divides => divides.mul_left _⟩

end ShiftRegister

end K210Guard
