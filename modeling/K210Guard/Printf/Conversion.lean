/-
**Conversions of numbers** (`bsp/printf.c`).

A conversion writes the digits of a number into a buffer of `BF_MAX` bytes, and `putchw` prints the
buffer with its sign, its prefix and its padding. What goes wrong, a buffer that is too small or a
loop that does not end, is a `Fault` here.

* `unsignedToA_eq`, `signedToA_eq`: a conversion ends, stays in the buffer and leaves the digits of
  the number there.
* `putchw_eq`: what is printed, as the padding of a front and a body.
-/

import Mathlib.Data.List.TakeWhile
import K210Guard.Memory.Range
import K210Guard.Text.Radix

namespace K210Guard

namespace Printf

open Radix (places)

/-- What a call of the formatter can run into. -/
inductive Fault
  /-- an argument is missing or of another type -/
  | argument
  /-- a conversion writes behind its buffer -/
  | overflow
  /-- a loop does not come to its end -/
  | endless
  deriving DecidableEq

/-- `BF_MAX` -/
def bfMax : Nat := 20

/-- `struct param`; a `sign` of 0 is none, and `bf` is the buffer as far as it is filled. -/
structure Param where
  lz : Bool := false
  alt : Bool := false
  uc : Bool := false
  alignLeft : Bool := false
  width : Int := 0
  prec : Int := -1
  sign : Byte := 0
  base : Nat := 0
  bf : List Byte := []

/-! ### Digits of a number -/

/-- `dgt + (dgt < 10 ? '0' : (p->uc ? 'A' : 'a') - 10)` -/
def digitByte (uc : Bool) (dgt : Nat) : Byte :=
  BitVec.ofNat 8 (dgt + (if dgt < 10 then 0x30 else (if uc then 0x41 else 0x61) - 10))

/-- `while (num / d >= p->base) d *= p->base;` in words of `w` bits. -/
def growDivisor (w base num : Nat) : (turns d : Nat) → Except Fault Nat
  | 0, _ => .error .endless
  | turns + 1, d =>
      if num / d ≥ base then growDivisor w base num turns (d * base % 2 ^ w) else .ok d

/-- `while (d != 0)`; `room` bytes are left in the buffer. -/
def writeDigits (base : Nat) (uc : Bool) : (room num d : Nat) → Except Fault (List Byte)
  | _, _, 0 => .ok []
  | 0, _, _ => .error .overflow
  | room + 1, num, d => do
      let bf ← writeDigits base uc room (num % d) (d / base)
      pure (digitByte uc (num / d) :: bf)

/-- The digits of a word of `w` bits. -/
def unsignedToA (w num : Nat) (p : Param) : Except Fault Param :=
  if p.prec = 0 ∧ num = 0 then pure p
  else do
    let d ← growDivisor w p.base num (w + 1) 1
    let bf ← writeDigits p.base p.uc bfMax num d
    pure { p with bf := bf }

/-- The digits of a signed word of `w` bits, and its sign. -/
def signedToA (w : Nat) (num : Int) (p : Param) : Except Fault Param :=
  if num < 0 then unsignedToA w (-num).toNat { p with sign := 0x2D }
  else unsignedToA w num.toNat p

def ulli2a (num : BitVec 64) (p : Param) : Except Fault Param := unsignedToA 64 num.toNat p

def lli2a (num : BitVec 64) (p : Param) : Except Fault Param := signedToA 64 num.toInt p

def uli2a (num : BitVec 64) (p : Param) : Except Fault Param := unsignedToA 64 num.toNat p

def li2a (num : BitVec 64) (p : Param) : Except Fault Param := signedToA 64 num.toInt p

def ui2a (num : BitVec 32) (p : Param) : Except Fault Param := unsignedToA 32 num.toNat p

def i2a (num : BitVec 32) (p : Param) : Except Fault Param := signedToA 32 num.toInt p

/-! ### Printing the buffer -/

/-- A difference of an `int` and a `size_t`, as an `int`. -/
def intMinus (value : Int) (count : Nat) : Int := Int.bmod (value - count) (2 ^ 32)

/-- `while (count-- > 0) putf(putp, ch);` -/
def fill (count : Int) (ch : Byte) : List Byte := List.replicate count.toNat ch

/-- The prefix of the alternate form. -/
def Param.prefixOf (p : Param) : List Byte :=
  if p.alt ∧ p.base = 16 then [0x30, if p.uc then 0x58 else 0x78]
  else if p.alt ∧ p.base = 8 then [0x30]
  else []

def Param.signOf (p : Param) : List Byte := if p.sign ≠ 0 then [p.sign] else []

/-- The width that is left to be filled. A difference that an `int` does not hold is left to the
compiler by C; here it is the integer. -/
def Param.rest (p : Param) : Int :=
  let prec := intMinus p.prec p.bf.length
  let width := intMinus p.width p.bf.length
  let width := if p.sign ≠ 0 then width - 1 else width
  let width :=
    if p.alt ∧ p.base = 16 then width - 2 else if p.alt ∧ p.base = 8 then width - 1 else width
  if prec > 0 then width - prec else width

/-- The bytes given to `putf`, in their order. The filling is of one kind only, so that the count of
one loop is not used by another. -/
def putchw (p : Param) : List Byte :=
  (if ¬ p.lz ∧ ¬ p.alignLeft then fill p.rest 0x20 else []) ++ p.signOf ++ p.prefixOf ++
    fill (intMinus p.prec p.bf.length) 0x30 ++ (if p.lz then fill p.rest 0x30 else []) ++
    p.bf.takeWhile (· ≠ 0) ++ (if ¬ p.lz ∧ p.alignLeft then fill p.rest 0x20 else [])

/-! ### The digits are those of the number -/

/-- The digits of a number, the highest one first, and a zero for 0. -/
def digitsOf (base n : Nat) : List Nat := if n = 0 then [0] else (Nat.digits base n).reverse

/-- The digits of a number as text. -/
def textOf (base : Nat) (uc : Bool) (n : Nat) : List Byte := (digitsOf base n).map (digitByte uc)

section Digits

variable {w base num k : Nat} {uc : Bool}

/-- The divisor is the highest power of the base in the number; it stays in the word. -/
theorem growDivisor_eq (large : 1 < base) (fits : num < 2 ^ w) {turns : Nat}
    (start : k = 0 ∨ base ^ k ≤ num) (enough : num < base ^ (k + turns + 1)) :
    ∃ top, growDivisor w base num (turns + 1) (base ^ k) = .ok (base ^ top) ∧
      (top = 0 ∨ base ^ top ≤ num) ∧ num < base ^ (top + 1) := by
  have positive (i : Nat) : 0 < base ^ i := Nat.pow_pos (Nat.zero_lt_of_lt large)
  induction turns generalizing k with
  | zero =>
      have low : ¬ num / base ^ k ≥ base := by
        rw [ge_iff_le, not_le, Nat.div_lt_iff_lt_mul (positive k), ← pow_succ']
        exact enough
      exact ⟨k, if_neg low, start, enough⟩
  | succ turns ih =>
      rw [growDivisor]
      by_cases grows : num / base ^ k ≥ base
      · have reaches : base ^ (k + 1) ≤ num := by
          rw [pow_succ']
          exact (Nat.le_div_iff_mul_le (positive k)).mp grows
        rw [if_pos grows, ← pow_succ, Nat.mod_eq_of_lt (reaches.trans_lt fits)]
        refine ih (.inr reaches) ?_
        rwa [show k + 1 + turns + 1 = k + (turns + 1) + 1 by ring]
      · refine ⟨k, if_neg grows, start, ?_⟩
        rw [pow_succ', ← Nat.div_lt_iff_lt_mul (positive k)]
        exact not_le.mp grows

/-- The digits from a place on, in a buffer that has room for them. -/
theorem writeDigits_eq (large : 1 < base) {room : Nat} (enough : k < room) :
    writeDigits base uc room num (base ^ k) = .ok ((places base k num).map (digitByte uc)) := by
  obtain ⟨room, rfl⟩ : ∃ less, room = less + 1 := ⟨room - 1, by omega⟩
  have nonzero (i : Nat) : base ^ i ≠ 0 := (Nat.pow_pos (Nat.zero_lt_of_lt large)).ne'
  induction k generalizing num room with
  | zero =>
      rw [pow_zero, writeDigits, Nat.div_eq_of_lt large, writeDigits, Nat.div_one]
      · rfl
      · exact Nat.one_ne_zero
  | succ k ih =>
      obtain ⟨room, rfl⟩ : ∃ less, room = less + 1 := ⟨room - 1, by omega⟩
      have lower : base ^ (k + 1) / base = base ^ k := by
        rw [pow_succ, Nat.mul_div_cancel _ (Nat.zero_lt_of_lt large)]
      rw [writeDigits, lower, ih _ (by omega)]
      · rfl
      · exact nonzero (k + 1)

/-- The digits, as the loop that writes them brings them out. -/
theorem places_eq_digitsOf (large : 1 < base) (top : k = 0 ∨ base ^ k ≤ num)
    (fits : num < base ^ (k + 1)) : places base k num = digitsOf base num := by
  rw [digitsOf]
  split
  · rename_i zero
    subst zero
    obtain rfl := top.resolve_right (Nat.not_le.mpr (Nat.pow_pos (Nat.zero_lt_of_lt large)))
    rfl
  · rename_i nonzero
    refine Radix.places_eq large ?_ fits
    obtain rfl | reaches := top
    · simpa [Nat.one_le_iff_ne_zero] using nonzero
    · exact reaches

end Digits

/-- The parameters with the digits of a number in the buffer; without a precision 0 has none. -/
def Param.filled (p : Param) (num : Nat) : Param :=
  if p.prec = 0 ∧ num = 0 then p else { p with bf := textOf p.base p.uc num }

/-- **A conversion fills the buffer with the digits**, if the number has no more than `BF_MAX`. -/
theorem unsignedToA_eq {w num : Nat} {p : Param} (large : 1 < p.base) (fits : num < 2 ^ w)
    (room : num < p.base ^ bfMax) : unsignedToA w num p = .ok (p.filled num) := by
  rw [unsignedToA, Param.filled]
  split
  · rfl
  · have enough : num < p.base ^ (0 + w + 1) := by
      calc num < 2 ^ w := fits
        _ ≤ p.base ^ w := Nat.pow_le_pow_left large w
        _ ≤ p.base ^ (0 + w + 1) := Nat.pow_le_pow_right (by omega) (by omega)
    obtain ⟨top, grows, reaches, below⟩ := growDivisor_eq large fits (.inl rfl) enough
    have inBuffer : top < bfMax := by
      obtain rfl | reaches := reaches
      · decide
      · exact (Nat.pow_lt_pow_iff_right large).mp (reaches.trans_lt room)
    rw [pow_zero] at grows
    rw [grows]
    show (writeDigits p.base p.uc bfMax num (p.base ^ top) >>= _) = _
    rw [writeDigits_eq large inBuffer, places_eq_digitsOf large reaches below]
    rfl

/-- A negative number is its absolute value behind a sign. -/
theorem signedToA_eq {w : Nat} {num : Int} {p : Param} (large : 1 < p.base)
    (fits : num.natAbs < 2 ^ w) (room : num.natAbs < p.base ^ bfMax) :
    signedToA w num p =
      .ok ((if num < 0 then { p with sign := 0x2D } else p).filled num.natAbs) := by
  rw [signedToA]
  split
  · rename_i negative
    rw [show (-num).toNat = num.natAbs by omega]
    exact unsignedToA_eq large fits room
  · rename_i positive
    rw [show num.toNat = num.natAbs by omega]
    exact unsignedToA_eq large fits room

/-- A number of 64 bits has at most 20 digits to base 10, and fewer to base 16. -/
theorem room_of_base {base num : Nat} (large : 10 ≤ base) (fits : num ≤ 2 ^ 64) :
    num < base ^ bfMax :=
  calc num ≤ 2 ^ 64 := fits
    _ < 10 ^ bfMax := by decide
    _ ≤ base ^ bfMax := Nat.pow_le_pow_left large bfMax

/-! ### What is printed -/

/-- Sign and prefix. -/
def Param.front (p : Param) : List Byte := p.signOf ++ p.prefixOf

/-- The buffer, with zeros up to the precision. -/
def Param.body (p : Param) : List Byte := List.leftpad p.prec.toNat 0x30 p.bf

/-- A front and a body in a field: the width is made up by zeros between them, or by blanks behind
or before both. -/
def Param.field (p : Param) : List Byte :=
  if p.lz then p.front ++ List.leftpad (p.width.toNat - p.front.length) 0x30 p.body
  else if p.alignLeft then List.rightpad p.width.toNat 0x20 (p.front ++ p.body)
  else List.leftpad p.width.toNat 0x20 (p.front ++ p.body)

/-- The numbers of a field do not overflow, and its buffer is text. -/
structure Param.Sane (p : Param) : Prop where
  width : 0 ≤ p.width ∧ p.width < 2 ^ 31
  prec : -1 ≤ p.prec ∧ p.prec < 2 ^ 31
  length : p.bf.length < 2 ^ 31 - 1
  text : 0 ∉ p.bf

theorem intMinus_eq {value : Int} {count : Nat} (low : -1 ≤ value) (high : value < 2 ^ 31)
    (small : count < 2 ^ 31 - 1) : intMinus value count = value - count := by
  rw [intMinus]
  exact Int.bmod_eq_of_le (by omega) (by omega)

/-- The filling makes up the width. -/
theorem Param.Sane.rest {p : Param} (sane : p.Sane) :
    p.rest.toNat = p.width.toNat - (p.front ++ p.body).length := by
  have width := intMinus_eq (by have := sane.width; omega) sane.width.2 sane.length
  have prec := intMinus_eq sane.prec.1 sane.prec.2 sane.length
  have sign : p.signOf.length = if p.sign ≠ 0 then 1 else 0 := by
    rw [signOf]
    split <;> rfl
  have alternate : p.prefixOf.length =
      if p.alt ∧ p.base = 16 then 2 else if p.alt ∧ p.base = 8 then 1 else 0 := by
    rw [prefixOf]
    split
    · rfl
    · split <;> rfl
  rw [Param.rest, width, prec, front, body]
  simp only [List.length_append, List.length_leftpad, sign, alternate]
  have := sane.width
  split_ifs <;> omega

/-- A text without a NUL goes on to its end. -/
theorem takeWhile_nonzero {text : List Byte} (whole : 0 ∉ text) :
    text.takeWhile (· ≠ 0) = text := by
  rw [List.takeWhile_eq_self_iff]
  intro ch member
  have nonzero : ch ≠ 0 := fun zero => whole (zero ▸ member)
  exact decide_eq_true nonzero

/-- **What is printed** is the field. -/
theorem putchw_eq {p : Param} (sane : p.Sane) : putchw p = p.field := by
  have prec := intMinus_eq sane.prec.1 sane.prec.2 sane.length
  have zeros : (p.prec - p.bf.length).toNat = p.prec.toNat - p.bf.length := by omega
  have left := sane.rest
  rw [putchw, Param.field, prec, takeWhile_nonzero sane.text]
  simp only [fill, left, zeros]
  cases p.lz with
  | true =>
      simp [Param.front, Param.body, List.leftpad, Nat.sub_sub]
      rw [← List.append_assoc (List.replicate _ _), List.replicate_append_replicate]
      congr 2
      omega
  | false =>
      cases p.alignLeft <;>
        simp [Param.front, Param.body, List.leftpad, List.rightpad]

end Printf

end K210Guard
