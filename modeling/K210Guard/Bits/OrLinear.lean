/-
**Functions that move bits.**

A function on numbers is linear over `|||` when it takes 0 to 0 and a union of bits to the union of
their images. Masking, shifting and uniting such functions gives such functions, so every chain of
masks and shifts is one. `OrLinear.ext`: two of them are equal on all numbers of a width when they
are equal on its single bits.
-/

import Mathlib.Algebra.Ring.Nat
import Mathlib.Data.List.Basic
import Mathlib.Tactic.Common

namespace K210Guard

/-- The image of a union of bits is the union of the images. -/
structure OrLinear (f : Nat → Nat) : Prop where
  zero : f 0 = 0
  or : ∀ a b, f (a ||| b) = f a ||| f b

namespace OrLinear

variable {f g : Nat → Nat}

/-! ### Masks and shifts -/

theorem id : OrLinear fun data => data := ⟨rfl, fun _ _ => rfl⟩

theorem mask (linear : OrLinear f) (bits : Nat) : OrLinear fun data => f data &&& bits where
  zero := by rw [linear.zero, Nat.zero_and]
  or a b := by rw [linear.or, Nat.and_or_distrib_right]

theorem shiftRight (linear : OrLinear f) (count : Nat) : OrLinear fun data => f data >>> count where
  zero := by rw [linear.zero, Nat.zero_shiftRight]
  or a b := by rw [linear.or, Nat.shiftRight_or_distrib]

theorem shiftLeft (linear : OrLinear f) (count : Nat) : OrLinear fun data => f data <<< count where
  zero := by rw [linear.zero, Nat.zero_shiftLeft]
  or a b := by rw [linear.or, Nat.shiftLeft_or_distrib]

theorem union (first : OrLinear f) (second : OrLinear g) :
    OrLinear fun data => f data ||| g data where
  zero := by rw [first.zero, second.zero, Nat.zero_or]
  or a b := by
    rw [first.or, second.or, Nat.or_assoc, Nat.or_assoc, ← Nat.or_assoc (f b),
      Nat.or_comm (f b) (g a), Nat.or_assoc]

/-- A loop that unites the parts of a list. -/
theorem loop {α : Type} {part : α → Nat → Nat} (each : ∀ index, OrLinear (part index))
    (indices : List α) (start : OrLinear f) :
    OrLinear fun data =>
      indices.foldl (fun result index => result ||| part index data) (f data) := by
  induction indices generalizing f with
  | nil => exact start
  | cons index rest ih => exact ih (start.union (each index))

/-! ### Single bits -/

/-- **Induction over the bits of a number.** -/
theorem bits_induction {P : Nat → Prop} {width : Nat} (zero : P 0)
    (bit : ∀ index < width, P (2 ^ index)) (or : ∀ a b, P a → P b → P (a ||| b)) (data : Nat)
    (small : data < 2 ^ width) : P data := by
  induction width generalizing data with
  | zero =>
      rw [Nat.lt_one_iff.mp small]
      exact zero
  | succ width ih =>
      have lower := ih fun index bound => bit index (Nat.lt_succ_of_lt bound)
      by_cases top : data < 2 ^ width
      · exact lower data top
      · rw [Nat.pow_succ] at small
        have low : data - 2 ^ width < 2 ^ width := by omega
        have whole : data = (data - 2 ^ width) ||| 2 ^ width := by
          rw [Nat.or_two_pow_eq_add_of_lt low]
          omega
        rw [whole]
        exact or _ _ (lower _ low) (bit width (Nat.lt_succ_self width))

/-- **Two such functions are equal** on the numbers of a width when they are equal on its bits. -/
theorem ext (first : OrLinear f) (second : OrLinear g) {width : Nat}
    (bits : ∀ index < width, f (2 ^ index) = g (2 ^ index)) (data : Nat)
    (small : data < 2 ^ width) : f data = g data := by
  refine bits_induction (P := fun data => f data = g data) ?_ bits (fun a b same same' => ?_) data
    small
  · rw [first.zero, second.zero]
  · rw [first.or, second.or, same, same']

end OrLinear

end K210Guard
