/-
**The ROM code corrects single and detects double errors** (`ecc` of `utils/adjhex.py`).

The check bits are an offset plus a sum of columns, those of `ecc_table` (`bitVector_ecc`), and the
columns are distinct, of odd weight and not of weight one: so codewords have distance four.

* `codewords_distance`: the 72-bit codewords of two words differ in four positions at least.
* `codewords_correct`: what lies one error from a codeword lies three at least from all others.
-/

import Mathlib.Algebra.BigOperators.Fin
import Mathlib.Data.Nat.Bitwise
import K210Guard.Coding.CheckMatrix
import K210Guard.Tools.Adjhex

namespace K210Guard

/-! ### Bits as vectors -/

/-- The low bits of a number, as a vector over GF(2). -/
def bitVector (width n : Nat) : Fin width → ZMod 2 := fun i => bif n.testBit i then 1 else 0

theorem bitVector_xor (width a b : Nat) :
    bitVector width (a ^^^ b) = bitVector width a + bitVector width b := by
  funext i
  simp only [bitVector, Pi.add_apply, Nat.testBit_xor]
  cases a.testBit i <;> cases b.testBit i <;> decide

/-- Numbers of a width are their bits. -/
theorem bitVector_inj {width a b : Nat} (small : a < 2 ^ width) (small' : b < 2 ^ width)
    (same : bitVector width a = bitVector width b) : a = b := by
  refine Nat.eq_of_testBit_eq fun i => ?_
  by_cases inside : i < width
  · have entry := congrFun same ⟨i, inside⟩
    simp only [bitVector] at entry
    cases left : a.testBit i <;> cases right : b.testBit i <;> simp_all
  · have high : 2 ^ width ≤ 2 ^ i := Nat.pow_le_pow_right (by decide) (not_lt.mp inside)
    rw [Nat.testBit_lt_two_pow (small.trans_le high), Nat.testBit_lt_two_pow (small'.trans_le high)]

/-- The bits of a number behind `width` low bits. -/
theorem bitVector_append {low width : Nat} (small : low < 2 ^ width) (more high : Nat) :
    bitVector (width + more) (2 ^ width * high + low) =
      Fin.append (bitVector width low) (bitVector more high) := by
  funext i
  refine Fin.addCases (fun i => ?_) (fun i => ?_) i
  · rw [Fin.append_left]
    simp only [bitVector, Fin.val_castAdd]
    rw [Nat.testBit_two_pow_mul_add _ small, if_pos i.isLt]
  · rw [Fin.append_right]
    simp only [bitVector, Fin.val_natAdd]
    rw [Nat.testBit_two_pow_mul_add _ small, if_neg (by omega), Nat.add_sub_cancel_left]

/-- The distance of vectors in two parts. -/
theorem hammingDist_append {m n : Nat} (a b : Fin m → ZMod 2) (c d : Fin n → ZMod 2) :
    hammingDist (Fin.append a c) (Fin.append b d) = hammingDist a b + hammingDist c d := by
  simp only [hammingDist, Finset.card_filter]
  rw [Fin.sum_univ_add]
  simp only [Fin.append_left, Fin.append_right]

/-! ### The check bits -/

/-- The columns of `ecc_table`. -/
def eccColumns (i : Fin 64) : Fin 8 → ZMod 2 := bitVector 8 (eccTable.getD i 0)

theorem eccTable_lt (i : Nat) : eccTable.getD i 0 < 2 ^ 8 := by
  by_cases inside : i < 64
  · revert i
    decide
  · rw [List.getD_eq_default _ _ (not_lt.mp inside)]
    decide

/-- A bit is picked with a mask. -/
theorem and_bit_ne_zero (word i : Nat) : word &&& 1 <<< i ≠ 0 ↔ word.testBit i = true := by
  rw [Nat.one_shiftLeft, Nat.and_two_pow]
  cases word.testBit i <;> simp

theorem ecc_lt (word : Nat) : ecc word < 2 ^ 8 := by
  have step : ∀ ecc < 2 ^ 8, ∀ i, eccStep word ecc i < 2 ^ 8 := by
    intro ecc small i
    unfold eccStep
    split
    · exact Nat.xor_lt_two_pow small (eccTable_lt i)
    · exact small
  have loop : ∀ (indices : List Nat) (start : Nat), start < 2 ^ 8 →
      indices.foldl (eccStep word) start < 2 ^ 8 := by
    intro indices
    induction indices with
    | nil => exact fun start small => small
    | cons i rest ih => exact fun start small => ih _ (step start small i)
  exact loop _ _ (by decide)

/-- **The check bits of `ecc`** are an offset and a sum of columns. -/
theorem bitVector_ecc (word : Nat) :
    bitVector 8 (ecc word) = bitVector 8 0x0C + checkBits eccColumns (bitVector 64 word) := by
  have loop (count : Nat) : bitVector 8 ((List.range count).foldl (eccStep word) 0x0C) =
      bitVector 8 0x0C + ∑ i ∈ Finset.range count,
        (bif word.testBit i then 1 else 0 : ZMod 2) • bitVector 8 (eccTable.getD i 0) := by
    induction count with
    | zero => rw [Finset.sum_range_zero, add_zero, List.range_zero, List.foldl_nil]
    | succ count ih =>
        rw [List.range_succ, List.foldl_append, List.foldl_cons, List.foldl_nil,
          Finset.sum_range_succ, ← add_assoc, ← ih, eccStep]
        simp only [and_bit_ne_zero]
        cases word.testBit count with
        | true => rw [if_pos rfl, bitVector_xor, cond_true, one_smul]
        | false => rw [if_neg Bool.false_ne_true, cond_false, zero_smul, add_zero]
  rw [ecc, loop, Finset.sum_range]
  rfl

/-! ### The distance -/

/-- A word and its check bits, 72 bits. -/
def codeword (word : Nat) : Nat := 2 ^ 8 * word + ecc word

theorem bitVector_codeword (word : Nat) :
    bitVector 72 (codeword word) = Fin.append (bitVector 8 (ecc word)) (bitVector 64 word) :=
  bitVector_append (ecc_lt word) 64 word

theorem eccColumns_odd : ∀ i, ∑ k, eccColumns i k = 1 := by decide +kernel

theorem eccColumns_heavy : ∀ i, hammingNorm (eccColumns i) ≠ 1 := by decide +kernel

theorem eccColumns_injective : Function.Injective eccColumns := by
  intro i j same
  have distinct : eccTable.Nodup := by decide
  have entry := bitVector_inj (eccTable_lt i) (eccTable_lt j) same
  rw [List.getD_eq_getElem _ _ i.isLt, List.getD_eq_getElem _ _ j.isLt] at entry
  exact Fin.ext ((List.Nodup.getElem_inj_iff distinct).mp entry)

/-- Words with different bits. -/
theorem distance_of_bits {word other : Nat} (bits : bitVector 64 word ≠ bitVector 64 other) :
    4 ≤ hammingDist (bitVector 72 (codeword word)) (bitVector 72 (codeword other)) := by
  rw [bitVector_codeword, bitVector_codeword, hammingDist_append, bitVector_ecc, bitVector_ecc,
    add_comm]
  exact CheckMatrix.four_le_distance eccColumns_odd eccColumns_heavy eccColumns_injective _ bits

/-- **Codewords differ in four positions at least.** -/
theorem codewords_distance {word other : Nat} (small : word < 2 ^ 64) (small' : other < 2 ^ 64)
    (different : word ≠ other) :
    4 ≤ hammingDist (bitVector 72 (codeword word)) (bitVector 72 (codeword other)) :=
  distance_of_bits fun same => different (bitVector_inj small small' same)

/-- Two words that differ in their last bit. -/
theorem codewords_distance_bit :
    4 ≤ hammingDist (bitVector 72 (codeword 0)) (bitVector 72 (codeword 1)) :=
  codewords_distance (by decide) (by decide) (by decide)

/-- **One error is corrected and two are detected**: what lies one error from a codeword lies three
errors at least from every other one. -/
theorem codewords_correct {word other received : Nat} (small : word < 2 ^ 64)
    (small' : other < 2 ^ 64) (different : word ≠ other)
    (oneError : hammingDist (bitVector 72 received) (bitVector 72 (codeword word)) ≤ 1) :
    3 ≤ hammingDist (bitVector 72 received) (bitVector 72 (codeword other)) := by
  have far := distance_of_bits fun same => different (bitVector_inj small small' same)
  have path := hammingDist_triangle_left (bitVector 72 (codeword word))
    (bitVector 72 (codeword other)) (bitVector 72 received)
  omega

end K210Guard
