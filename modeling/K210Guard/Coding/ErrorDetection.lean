/-
**What a shift register detects.**

Two lists of bits that differ are told apart by their remainders

* in an odd number of places, when the generator has a factor `X + 1` (`even_of_dvd`);
* within as many places as the register has bits (`burst_not_dvd`);
* in two places, unless their distance is a multiple of the order of `X` (`pair_dvd_iff`).

Powers of `X` are computed in registers (`residue_power`), which decides orders.
-/

import Mathlib.GroupTheory.OrderOfElement
import K210Guard.Coding.ShiftRegister

namespace K210Guard

open Polynomial Finset

/-! ### Differences -/

/-- The places at which two lists differ. -/
def differing (bits more : List Bool) : Finset Nat :=
  {i ∈ range bits.length | bits[i]? ≠ more[i]?}

theorem bitPolynomial_eq_sum (bits : List Bool) : bitPolynomial bits =
    ∑ i ∈ range bits.length, if bits[i]? = some true then X ^ (bits.length - 1 - i) else 0 := by
  induction bits with
  | nil => rfl
  | cons bit rest ih =>
      rw [bitPolynomial, ih, List.length_cons, sum_range_succ', add_comm]
      refine congrArg₂ _ (sum_congr rfl fun i _ => ?_) (by simp)
      rw [List.getElem?_cons_succ, Nat.add_sub_cancel, Nat.sub_sub, Nat.add_comm i 1]

/-- **The difference of two lists** has a power for each place at which they differ. -/
theorem sub_eq_sum {bits more : List Bool} (lengths : bits.length = more.length) :
    bitPolynomial bits - bitPolynomial more =
      ∑ i ∈ differing bits more, X ^ (bits.length - 1 - i) := by
  rw [bitPolynomial_eq_sum, bitPolynomial_eq_sum, ← lengths, ← sum_sub_distrib, differing,
    sum_filter]
  refine sum_congr rfl fun i member => ?_
  have inside := mem_range.mp member
  rw [List.getElem?_eq_getElem inside, List.getElem?_eq_getElem (lengths ▸ inside)]
  cases bits[i] <;> cases more[i] <;> simp [CharTwo.neg_eq]

/-- Lists that differ nowhere are equal. -/
theorem differing_nonempty {bits more : List Bool} (lengths : bits.length = more.length)
    (different : bits ≠ more) : (differing bits more).Nonempty := by
  by_contra empty
  refine different (bitPolynomial_injective lengths (sub_eq_zero.mp ?_))
  rw [sub_eq_sum lengths, not_nonempty_iff_eq_empty.mp empty, sum_empty]

namespace ShiftRegister

variable {width feedback : Nat} {bits more : List Bool}

/-! ### Parity -/

theorem eval_bitPolynomial (bits : List Bool) :
    (bitPolynomial bits).eval 1 = (bits.count true : ZMod 2) := by
  induction bits with
  | nil => simp [bitPolynomial]
  | cons bit rest ih => cases bit <;> simp [bitPolynomial, ih, add_comm]

/-- **An odd number of places** is detected by a feedback with an odd number of bits. -/
theorem even_of_dvd (weight : Odd ((wordBits width feedback).count true))
    (lengths : bits.length = more.length)
    (divides : generator width feedback ∣ bitPolynomial bits - bitPolynomial more) :
    Even (differing bits more).card := by
  have root : (generator width feedback).eval 1 = 0 := by
    rw [generator, eval_add, eval_pow, eval_X, one_pow, eval_bitPolynomial,
      ZMod.natCast_eq_one_iff_odd.mpr weight]
    rfl
  have value : (generator width feedback).eval 1 ∣
      (bitPolynomial bits - bitPolynomial more).eval 1 := eval_dvd divides
  rw [root, sub_eq_sum lengths, eval_finsetSum, zero_dvd_iff] at value
  simpa [ZMod.natCast_eq_zero_iff_even] using value

/-! ### Bursts -/

/-- **A burst** no longer than the register is detected. -/
theorem burst_not_dvd (last : feedback.testBit width) (lengths : bits.length = more.length)
    (different : bits ≠ more) {first : Nat}
    (burst : ∀ i ∈ differing bits more, first ≤ i ∧ i < first + (width + 1)) :
    ¬generator (width + 1) feedback ∣ bitPolynomial bits - bitPolynomial more := by
  intro divides
  have some := differing_nonempty lengths different
  -- the powers of the difference, down to the last place at which the lists differ
  let final := (differing bits more).max' some
  have inside : final < bits.length := by
    exact mem_range.mp (mem_filter.mp (max'_mem _ some)).1
  have split : bitPolynomial bits - bitPolynomial more =
      X ^ (bits.length - 1 - final) * ∑ i ∈ differing bits more, X ^ (final - i) := by
    rw [sub_eq_sum lengths, mul_sum]
    refine sum_congr rfl fun i member => ?_
    have before : i ≤ final := le_max' _ i member
    rw [← pow_add]
    congr 1
    omega
  have short : (∑ i ∈ differing bits more, (X : (ZMod 2)[X]) ^ (final - i)).degree <
      ((width + 1 : Nat) : WithBot Nat) := by
    refine (degree_sum_le _ _).trans_lt ((Finset.sup_lt_iff (WithBot.bot_lt_coe _)).mpr ?_)
    intro i member
    rw [degree_X_pow]
    have lower := (burst i member).1
    have upper := (burst final (max'_mem _ some)).2
    exact_mod_cast (by omega : final - i < width + 1)
  rw [split] at divides
  have zero := eq_zero_of_dvd_of_degree_lt
    ((coprime_X last).symm.pow_right.dvd_of_dvd_mul_left divides) (by rwa [degree_generator])
  rw [zero, mul_zero] at split
  exact different (bitPolynomial_injective lengths (sub_eq_zero.mp split))

/-! ### Pairs -/

/-- **Two places** go undetected when their distance is a multiple of the order of `X`. -/
theorem pair_dvd_iff (last : feedback.testBit width) (lengths : bits.length = more.length)
    {i j : Nat} (order : i < j) (pair : differing bits more = {i, j}) :
    generator (width + 1) feedback ∣ bitPolynomial bits - bitPolynomial more ↔
      orderOf (AdjoinRoot.root (generator (width + 1) feedback)) ∣ j - i := by
  have inside : j < bits.length := by
    have member : j ∈ differing bits more := by simp [pair]
    exact mem_range.mp (mem_filter.mp member).1
  have split : bitPolynomial bits - bitPolynomial more =
      X ^ (bits.length - 1 - j) * (X ^ (j - i) - 1) := by
    rw [sub_eq_sum lengths, pair, sum_pair (Nat.ne_of_lt order), mul_sub, mul_one, ← pow_add,
      CharTwo.sub_eq_add]
    congr 2
    omega
  rw [split, orderOf_dvd_iff_pow_eq_one, ← AdjoinRoot.mk_X, ← map_pow, ← map_one (AdjoinRoot.mk _),
    AdjoinRoot.mk_eq_mk]
  exact ⟨(coprime_X last).symm.pow_right.dvd_of_dvd_mul_left, fun divides => divides.mul_left _⟩

/-! ### Powers of `X` in registers -/

/-- The product of two registers. -/
def times (width feedback register other : Nat) : Nat :=
  (wordBits width register).foldl
    (fun product bit => clock feedback product ^^^ (if bit then other else 0)) 0

/-- The register of a power of `X`, from the bits of the exponent, the highest first. -/
def power (width feedback : Nat) (exponent : List Bool) : Nat :=
  exponent.foldl (fun register bit =>
    let square := times width feedback register register
    if bit then clock feedback square else square) (2 ^ (width - 1))

/-- The number of the bits of an exponent. -/
def exponentOf (exponent : List Bool) : Nat :=
  exponent.foldl (fun number bit => 2 * number + bit.toNat) 0

theorem residue_times {register other : Nat} (room : feedback < 2 ^ width)
    (small : other < 2 ^ width) :
    times width feedback register other < 2 ^ width ∧
      residue width feedback (times width feedback register other) =
        residue width feedback register * residue width feedback other := by
  rw [times, residue.eq_1 _ _ register]
  induction wordBits width register using List.reverseRecOn with
  | nil => simp [bitPolynomial]
  | append_singleton bits bit ih =>
      rw [List.foldl_append, List.foldl_cons, List.foldl_nil, residue_xor, residue_clock ih.1,
        ih.2, bitPolynomial_append]
      refine ⟨Nat.xor_lt_two_pow (clock_lt ih.1 room) ?_, ?_⟩
      · split_ifs
        exacts [small, Nat.two_pow_pos width]
      · cases bit <;> simp [bitPolynomial] <;> ring

theorem residue_one (positive : 0 < width) : residue width feedback (2 ^ (width - 1)) = 1 := by
  obtain ⟨rest, rfl⟩ := Nat.exists_eq_add_of_lt positive
  have bits : wordBits (rest + 1) (2 ^ rest) = List.replicate rest false ++ [true] := by
    rw [wordBits, List.range_succ, List.map_append]
    refine congrArg₂ _ (List.eq_replicate_iff.mpr ⟨by simp, fun bit member => ?_⟩) ?_
    · obtain ⟨i, inside, rfl⟩ := List.mem_map.mp member
      exact Nat.testBit_two_pow_of_ne (Nat.ne_of_gt (List.mem_range.mp inside))
    · simp
  rw [Nat.zero_add, Nat.add_sub_cancel, residue, bits, bitPolynomial_append]
  simp [bitPolynomial]

/-- **Powers of `X`**, computed by squaring. -/
theorem residue_power (positive : 0 < width) (room : feedback < 2 ^ width)
    (exponent : List Bool) :
    power width feedback exponent < 2 ^ width ∧
      residue width feedback (power width feedback exponent) =
        AdjoinRoot.root _ ^ exponentOf exponent := by
  rw [power, exponentOf]
  induction exponent using List.reverseRecOn with
  | nil =>
      refine ⟨Nat.pow_lt_pow_right (by decide) (Nat.sub_lt positive (by decide)), ?_⟩
      simpa using residue_one positive
  | append_singleton exponent bit ih =>
      rw [List.foldl_append, List.foldl_append]
      simp only [List.foldl_cons, List.foldl_nil]
      obtain ⟨small, squared⟩ := residue_times room ih.1
      rw [ih.2, ← pow_add, ← Nat.two_mul] at squared
      cases bit with
      | false => exact ⟨small, squared⟩
      | true =>
          refine ⟨clock_lt small room, ?_⟩
          rw [if_pos rfl, residue_clock small, squared, ← pow_succ']
          rfl

end ShiftRegister

end K210Guard
