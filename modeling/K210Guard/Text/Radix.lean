/-
**Digits to a base, the highest place first.**

* `places base k n`: the digits of `n` at the places `k` to 0, as division by the powers of the base
  brings them out one after the other.
* `places_eq`: with a digit at the place `k`, they are the digits of `n` (`Nat.digits`).
* `read`: the number that digits make, read from the left (`read_zeros`).
-/

import Mathlib.Data.Nat.Digits.Lemmas
import Mathlib.Tactic.Ring

namespace K210Guard

namespace Radix

/-- The digits at the places `k` to 0, the highest one first. -/
def places (base : Nat) : (k n : Nat) → List Nat
  | 0, n => [n]
  | k + 1, n => n / base ^ (k + 1) :: places base k (n % base ^ (k + 1))

variable {base k n : Nat}

@[simp] theorem places_length : (places base k n).length = k + 1 := by
  induction k generalizing n with
  | zero => rfl
  | succ k ih => simp [places, ih]

/-- Each digit is below the base. -/
theorem places_lt (positive : 0 < base) (fits : n < base ^ (k + 1)) :
    ∀ digit ∈ places base k n, digit < base := by
  induction k generalizing n with
  | zero => simpa [places] using fits
  | succ k ih =>
      intro digit member
      obtain rfl | later := List.mem_cons.mp member
      · rw [Nat.div_lt_iff_lt_mul (Nat.pow_pos positive), ← pow_succ']
        exact fits
      · exact ih (Nat.mod_lt n (Nat.pow_pos positive)) digit later

theorem ofDigits_places (base k n : Nat) : Nat.ofDigits base (places base k n).reverse = n := by
  induction k generalizing n with
  | zero => simp [places]
  | succ k ih =>
      rw [places, List.reverse_cons, Nat.ofDigits_append, ih, List.length_reverse, places_length,
        Nat.ofDigits_singleton, Nat.mod_add_div]

/-- **The digits of a number** whose highest digit is at the place `k`. -/
theorem places_eq (large : 1 < base) (reaches : base ^ k ≤ n) (fits : n < base ^ (k + 1)) :
    places base k n = (Nat.digits base n).reverse := by
  have positive : 0 < base := Nat.zero_lt_of_lt large
  have digits : Nat.digits base n = (places base k n).reverse := by
    conv_lhs => rw [← ofDigits_places base k n]
    refine Nat.digits_ofDigits base large _ (fun digit member => ?_) fun _ => ?_
    · exact places_lt positive fits digit (List.mem_reverse.mp member)
    · rw [List.getLast_reverse]
      cases k with
      | zero => simpa [places, Nat.one_le_iff_ne_zero] using reaches
      | succ k =>
          show n / base ^ (k + 1) ≠ 0
          exact (Nat.div_pos reaches (Nat.pow_pos positive)).ne'
  rw [digits, List.reverse_reverse]

/-! ### Reading from the left -/

/-- The number that digits make behind a number that has been read. -/
def read (base before : Nat) (digits : List Nat) : Nat :=
  digits.foldl (fun value digit => value * base + digit) before

theorem read_eq (before : Nat) (digits : List Nat) :
    read base before digits =
      before * base ^ digits.length + Nat.ofDigits base digits.reverse := by
  induction digits generalizing before with
  | nil => simp [read]
  | cons digit digits ih =>
      show read base (before * base + digit) digits = _
      rw [ih, List.reverse_cons, Nat.ofDigits_append, List.length_reverse, Nat.ofDigits_singleton,
        List.length_cons, pow_succ']
      ring

/-- Zeros in front do not count. -/
theorem read_zeros (count : Nat) (digits : List Nat) :
    read base 0 (List.replicate count 0 ++ digits) = read base 0 digits := by
  rw [read_eq, read_eq, List.reverse_append, List.reverse_replicate,
    Nat.ofDigits_append_replicate_zero, zero_mul, zero_mul]

end Radix

end K210Guard
