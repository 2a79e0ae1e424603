/-
**Codewords with check bits.**

The check bits of a word over GF(2) are the sum of the columns of its set bits, one column a bit.
The weight of a vector has the parity of the sum of its entries, so columns of odd weight tell an
odd number of set bits from an even one. `four_le_distance`: when the columns are distinct as well,
and none has weight one, two codewords differ in four positions at least.
-/

import Mathlib.InformationTheory.Hamming
import Mathlib.Algebra.Field.ZMod

namespace K210Guard

open Finset

/-- The check bits of a word. -/
def checkBits {ι κ : Type} [Fintype ι] (columns : ι → κ → ZMod 2) (word : ι → ZMod 2) :
    κ → ZMod 2 :=
  ∑ i, word i • columns i

namespace CheckMatrix

variable {ι κ : Type} [Fintype ι] [Fintype κ] {columns : ι → κ → ZMod 2}

/-- Over GF(2) an entry counts itself. -/
theorem entry_eq (x : ZMod 2) : (if x ≠ 0 then 1 else 0) = x := by
  revert x
  decide

/-- **The parity of a weight** is the sum of the entries. -/
theorem weight_cast (v : ι → ZMod 2) : (hammingNorm v : ZMod 2) = ∑ i, v i := by
  rw [hammingNorm, natCast_card_filter]
  exact sum_congr rfl fun i _ => entry_eq (v i)

omit [Fintype κ] in
/-- The check bits are a sum over the set bits. -/
theorem checkBits_eq_sum (word : ι → ZMod 2) :
    checkBits columns word = ∑ i with word i ≠ 0, columns i := by
  rw [checkBits, sum_filter]
  refine sum_congr rfl fun i _ => ?_
  conv_lhs => rw [← entry_eq (word i)]
  rw [ite_smul, one_smul, zero_smul]

omit [Fintype κ] in
/-- Check bits are linear. -/
theorem checkBits_sub (word other : ι → ZMod 2) :
    checkBits columns (word - other) = checkBits columns word - checkBits columns other := by
  simp only [checkBits, Pi.sub_apply, sub_smul, sum_sub_distrib]

/-- Columns of odd weight: the word and its check bits have one parity. -/
theorem even_add_weight (odd : ∀ i, ∑ k, columns i k = 1) (word : ι → ZMod 2) :
    Even (hammingNorm word + hammingNorm (checkBits columns word)) := by
  have parity : ∑ k, checkBits columns word k = ∑ i, word i := by
    simp only [checkBits, Finset.sum_apply, Pi.smul_apply, smul_eq_mul]
    rw [sum_comm]
    refine sum_congr rfl fun i _ => ?_
    rw [← mul_sum, odd, mul_one]
  rw [← ZMod.natCast_eq_zero_iff_even, Nat.cast_add, weight_cast, weight_cast, parity]
  exact CharTwo.add_self_eq_zero _

/-- **Weight four**: no one, two or three of the columns cancel, and one of them leaves three check
bits at least. -/
theorem four_le_weight (odd : ∀ i, ∑ k, columns i k = 1)
    (heavy : ∀ i, hammingNorm (columns i) ≠ 1) (distinct : Function.Injective columns)
    {word : ι → ZMod 2} (nonzero : word ≠ 0) :
    4 ≤ hammingNorm word + hammingNorm (checkBits columns word) := by
  classical
  have positive := hammingNorm_pos_iff.mpr nonzero
  obtain ⟨half, even⟩ := even_add_weight odd word
  by_contra few
  -- the sum is even and positive, so it is two
  have two : hammingNorm word + hammingNorm (checkBits columns word) = 2 := by omega
  rcases (by omega : hammingNorm word = 1 ∨ hammingNorm word = 2) with one | both
  · obtain ⟨i, support⟩ := card_eq_one.mp one
    refine heavy i ?_
    have check : checkBits columns word = columns i := by
      rw [checkBits_eq_sum, support, sum_singleton]
    rw [← check]
    omega
  · obtain ⟨i, j, different, support⟩ := card_eq_two.mp both
    refine different (distinct ?_)
    have check : columns i + columns j = 0 := by
      rw [← sum_pair different, ← support, ← checkBits_eq_sum, ← hammingNorm_eq_zero]
      omega
    funext k
    exact CharTwo.add_eq_zero.mp (congrFun check k)

/-- **Distance four**, whatever is added to the check bits of all words. -/
theorem four_le_distance (odd : ∀ i, ∑ k, columns i k = 1)
    (heavy : ∀ i, hammingNorm (columns i) ≠ 1) (distinct : Function.Injective columns)
    (offset : κ → ZMod 2) {word other : ι → ZMod 2} (different : word ≠ other) :
    4 ≤ hammingDist word other +
      hammingDist (offset + checkBits columns word) (offset + checkBits columns other) := by
  have weight := four_le_weight odd heavy distinct (sub_ne_zero.mpr different)
  rw [checkBits_sub] at weight
  simpa only [hammingDist, hammingNorm, Pi.sub_apply, Pi.add_apply, sub_ne_zero, ne_eq,
    add_right_inj] using weight

end CheckMatrix

end K210Guard
